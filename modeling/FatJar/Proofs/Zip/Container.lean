/-
FatJar.Proofs.Zip.Container — a written container is read back as it was.

`listing` is what a container holds: the names of its members and their payloads,
in the order of the directory. Of a container that has been written it gives the
written names and payloads (`listing_containerBytes`), and reading it as entries
gives the entries back (`read_containerBytes`).

The reader looks for the end record from the end of the bytes. What looks like
one further back is never reached: the bytes of the true record are the last, so
whatever starts after it is cut off. Nor do payloads that look like records matter
elsewhere, since the end record says where the directory starts.

Contents:
1. regular entries;
2. where signatures stand;
3. the directory and its members;
4. finding the directory;
5. names and payloads;
6. the container.
-/
import FatJar.Proofs.Text.Lossy
import FatJar.Proofs.Zip.Deflate
import FatJar.Proofs.Zip.Record
import FatJar.Zip.Reader
import FatJar.Zip.Writer

namespace FatJar

/-! ## 1. Regular entries -/

namespace Entry

/-- The name ends in a slash if the entry is a directory. -/
def Slashed (e : Entry) : Prop :=
  e.kind = .directory → e.name.toList.getLast? = some '/'

instance (e : Entry) : Decidable e.Slashed :=
  inferInstanceAs (Decidable (e.kind = .directory → e.name.toList.getLast? = some '/'))

/-- The name tells the kind of the entry, and a directory has no payload. -/
structure Regular (e : Entry) : Prop where
  slashed : e.Slashed
  empty : e.kind = .directory → e.payload = []
  file : e.kind = .file → Zip.isDirectoryName e.name = false

instance (e : Entry) : Decidable e.Regular :=
  decidable_of_iff (e.Slashed ∧ (e.kind = .directory → e.payload = []) ∧
      (e.kind = .file → Zip.isDirectoryName e.name = false))
    ⟨fun h => ⟨h.1, h.2.1, h.2.2⟩, fun h => ⟨h.slashed, h.empty, h.file⟩⟩

variable {e : Entry}

theorem Slashed.isDirectoryName (h : e.Slashed) (hkind : e.kind = .directory) :
    Zip.isDirectoryName e.name = true := by
  simp [Zip.isDirectoryName, h hkind, EntryName.isSeparator]

theorem Slashed.writtenName (h : e.Slashed) : Zip.writtenName e = e.name := by
  cases hkind : e.kind with
  | directory => simp [Zip.writtenName, Zip.directoryName, hkind, h hkind, EntryName.isSeparator]
  | file => simp [Zip.writtenName, hkind]

theorem Regular.writtenPayload (h : e.Regular) : Zip.writtenPayload e = e.payload := by
  cases hkind : e.kind with
  | directory => simp [Zip.writtenPayload, hkind, h.empty hkind]
  | file => simp [Zip.writtenPayload, hkind]

theorem Regular.kind_iff (h : e.Regular) :
    e.kind = .directory ↔ Zip.isDirectoryName e.name = true := by
  cases hkind : e.kind with
  | directory => simp [h.slashed.isDirectoryName hkind]
  | file => simp [h.file hkind]

end Entry

namespace Zip

/-! ## 2. Signatures -/

section Signatures

variable {signature : Bytes}

theorem offsetsOf_eq_append (offset : Nat) (found : List Nat) (bytes : Bytes) :
    offsetsOf signature offset found bytes = offsetsOf signature offset [] bytes ++ found := by
  induction bytes generalizing offset found with
  | nil => rfl
  | cons b rest ih =>
    simp only [offsetsOf]
    split
    · rw [ih, ih (offset + 1) [offset]]
      simp
    · exact ih _ _

theorem le_of_mem_offsetsOf {offset n : Nat} {bytes : Bytes}
    (h : n ∈ offsetsOf signature offset [] bytes) : offset ≤ n := by
  induction bytes generalizing offset with
  | nil => cases h
  | cons b rest ih =>
    simp only [offsetsOf] at h
    split at h
    · rw [offsetsOf_eq_append] at h
      rcases List.mem_append.mp h with hlater | hhere
      · exact Nat.le_of_succ_le (ih hlater)
      · cases List.mem_singleton.mp hhere
        exact Nat.le_refl _
    · exact Nat.le_of_succ_le (ih h)

/-- Bytes that start with the signature have it at their start, and elsewhere only after that. -/
theorem offsetsOf_of_start (hsignature : signature ≠ []) (offset : Nat) (rest : Bytes) :
    ∃ later, offsetsOf signature offset [] (signature ++ rest) = later ++ [offset] ∧
      ∀ n ∈ later, offset < n := by
  obtain ⟨b, more, hcons⟩ := List.exists_cons_of_ne_nil hsignature
  have htake : (signature ++ rest).take signature.length == signature := by simp
  have hbytes : signature ++ rest = b :: (more ++ rest) := by rw [hcons, List.cons_append]
  rw [hbytes] at htake ⊢
  rw [offsetsOf, if_pos htake, offsetsOf_eq_append]
  exact ⟨_, rfl, fun n hn => le_of_mem_offsetsOf hn⟩

/-- The occurrence of a signature after some bytes: the later ones come before it. -/
theorem offsetsOf_append (hsignature : signature ≠ []) (before : Bytes) (offset : Nat)
    (rest : Bytes) :
    ∃ later earlier, offsetsOf signature offset [] (before ++ (signature ++ rest)) =
        later ++ (offset + before.length) :: earlier ∧
      ∀ n ∈ later, offset + before.length < n := by
  induction before generalizing offset with
  | nil =>
    obtain ⟨later, hoffsets, hlater⟩ := offsetsOf_of_start hsignature offset rest
    exact ⟨later, [], hoffsets, hlater⟩
  | cons b before ih =>
    obtain ⟨later, earlier, hoffsets, hlater⟩ := ih (offset + 1)
    have hlength : offset + 1 + before.length = offset + (b :: before).length := by
      simp only [List.length_cons]
      omega
    rw [hlength] at hoffsets hlater
    rw [List.cons_append, offsetsOf]
    split
    · rw [offsetsOf_eq_append, hoffsets]
      exact ⟨later, earlier ++ [offset], by simp, hlater⟩
    · exact ⟨later, earlier, hoffsets, hlater⟩

end Signatures

theorem Header.write_eq_signature_append (h : Header) :
    ∃ rest, h.write = littleEndian 4 Header.signature ++ rest := by
  simp only [Header.write, writeFields, List.flatMap_cons, List.append_assoc]
  exact ⟨_, rfl⟩

theorem EndRecord.write_eq_signature_append (r : EndRecord) :
    ∃ rest, r.write = littleEndian 4 EndRecord.signature ++ rest := by
  simp only [EndRecord.write, writeFields, List.flatMap_cons]
  exact ⟨_, rfl⟩

/-! ## 3. The directory -/

/-- The headers of entries, the first of which starts at the offset. -/
def headersFrom (offset : Nat) : List Entry → List Header
  | [] => []
  | e :: rest =>
    let h := headerOf offset (writtenData e).length e
    h :: headersFrom (offset + (h.writeLocal ++ writtenData e).length) rest

theorem layout_directory (offset : Nat) (entries : List Entry) :
    (layout offset entries).2 = (headersFrom offset entries).flatMap Header.write := by
  induction entries generalizing offset with
  | nil => rfl
  | cons e rest ih => simp only [layout, headersFrom, List.flatMap_cons, ih]

@[simp]
theorem length_headersFrom (offset : Nat) (entries : List Entry) :
    (headersFrom offset entries).length = entries.length := by
  induction entries generalizing offset with
  | nil => rfl
  | cons e rest ih => simp [headersFrom, ih]

/-- A header as the reader takes it over without a change: it has no extra fields, is not marked as
locked, and its member starts before the directory. -/
structure Header.Plain (start : Nat) (h : Header) : Prop extends h.Fits where
  extra_eq : h.extra = []
  unlocked : h.method ≠ lockedMethod
  offset_lt : h.offset < start

theorem Member.ofHeader?_eq_plain {start : Nat} {h : Header} (hplain : h.Plain start) :
    Member.ofHeader? h = some (.plain h) := by
  have hmethod : (Member.plain h).header.method ≠ lockedMethod := hplain.unlocked
  simp [Member.ofHeader?, hplain.extra_eq, takeFields, hmethod]

/-- The headers of a directory are read one after the other. -/
theorem members?_write {d : Directory} (hshift : d.shift = 0) {headers : List Header}
    (hplain : ∀ h ∈ headers, h.Plain d.start) (rest : Bytes) :
    members? d headers.length (headers.flatMap Header.write ++ rest) =
      some (headers.map Member.plain) := by
  induction headers with
  | nil => rfl
  | cons h others ih =>
    have hfirst := hplain h List.mem_cons_self
    have hothers := ih fun other hother => hplain other (List.mem_cons_of_mem _ hother)
    have hbefore : ¬ d.start ≤ (Member.plain h).header.offset := Nat.not_le.mpr hfirst.offset_lt
    simp only [List.flatMap_cons, List.append_assoc, List.length_cons, members?,
      Header.read?_write hfirst.toFits, Member.ofHeader?_eq_plain hfirst, hshift, Nat.add_zero,
      hbefore, hothers, if_false, Option.bind_eq_bind, Option.bind_some, List.map_cons]
    rfl

/-! ## 4. Finding the directory -/

/-- An end record that is cut off is passed over. -/
theorem membersFrom_skip {bytes : Bytes} {r : EndRecord} {later : List Nat} (offsets : List Nat)
    (hlater : ∀ n ∈ later, bytes.length < n + r.write.length) (earlier : Option Error) :
    ∃ earlier',
      membersFrom bytes earlier (later ++ offsets) = membersFrom bytes earlier' offsets := by
  induction later generalizing earlier with
  | nil => exact ⟨earlier, rfl⟩
  | cons n rest ih =>
    have hshort : (bytes.drop n).length < r.write.length := by
      have hn := hlater n List.mem_cons_self
      have hpositive : 0 < r.write.length := by rw [EndRecord.length_write]; decide
      rw [List.length_drop]
      omega
    have hcut : directoryAt bytes n = .error (.unreadable .truncated) := by
      rw [directoryAt, EndRecord.read?_eq_none hshort]
    rw [List.cons_append, membersFrom, hcut]
    exact ih (fun n' hn' => hlater n' (List.mem_cons_of_mem _ hn')) _

/-- Between two offsets of which the first is that of a header, the first header is that one. -/
theorem firstHeader?_of_start (before rest more : Bytes) (h : Header) :
    firstHeader? (before ++ (h.write ++ more) ++ rest) before.length
      (before ++ (h.write ++ more)).length = some before.length := by
  obtain ⟨tail, htail⟩ := h.write_eq_signature_append
  have hbytes : ((before ++ (h.write ++ more) ++ rest).take
      (before ++ (h.write ++ more)).length).drop before.length =
      littleEndian 4 Header.signature ++ (tail ++ more) := by
    rw [List.take_left, List.drop_left, htail, List.append_assoc]
  have hsignature : littleEndian 4 Header.signature ≠ [] := by decide
  obtain ⟨later, hoffsets, -⟩ := offsetsOf_of_start hsignature before.length (tail ++ more)
  rw [firstHeader?, hbytes, hoffsets, List.getLast?_concat]

/-- The end record tells of the members and the headers that stand before it. -/
structure EndRecord.TellsOf (body : Bytes) (headers : List Header) (r : EndRecord) : Prop
    extends r.Fits where
  oneDisk : r.disk = r.directoryDisk
  membersHere_eq : r.membersHere = headers.length
  members_eq : r.members = headers.length
  directoryOffset_eq : r.directoryOffset = body.length
  commentLength_eq : r.commentLength = 0

section Directory

variable {body : Bytes} {headers : List Header} {r : EndRecord}

/-- The end record of a container on one disk, without a comment. -/
def endRecordOf (body : Bytes) (headers : List Header) : EndRecord :=
  ⟨0, 0, headers.length, headers.length, (headers.flatMap Header.write).length, body.length, 0⟩

theorem endRecordOf_tellsOf (hcount : headers.length < 256 ^ 2) (hbody : body.length < 256 ^ 4)
    (hdirectory : (headers.flatMap Header.write).length < 256 ^ 4) :
    (endRecordOf body headers).TellsOf body headers where
  disk := by show 0 < _; decide
  directoryDisk := by show 0 < _; decide
  membersHere := hcount
  members := hcount
  directorySize := hdirectory
  directoryOffset := hbody
  commentLength := by show 0 < _; decide
  oneDisk := rfl
  membersHere_eq := rfl
  members_eq := rfl
  directoryOffset_eq := rfl
  commentLength_eq := rfl

theorem directoryAt_endRecord (hr : r.TellsOf body headers) :
    directoryAt (body ++ headers.flatMap Header.write ++ r.write)
      (body ++ headers.flatMap Header.write).length =
        .ok ⟨body.length, headers.length, 0, true⟩ := by
  have hread := EndRecord.read?_write hr.toFits []
  rw [List.append_nil] at hread
  simp only [directoryAt, List.drop_left, hread, hr.commentLength_eq, hr.oneDisk, hr.members_eq,
    hr.membersHere_eq, hr.directoryOffset_eq, Nat.not_lt_zero, if_false, beq_self_eq_true]
  cases headers with
  | nil => simp
  | cons h others =>
    have hafter : ¬ (body ++ (h :: others).flatMap Header.write).length ≤ body.length := by
      simp only [List.flatMap_cons, List.length_append, Header.length_write]
      omega
    have hfirst := firstHeader?_of_start body r.write (others.flatMap Header.write) h
    rw [← List.flatMap_cons] at hfirst
    rw [if_neg (by simp), if_neg hafter, hfirst]
    simp only [Nat.sub_self]

/-- The members are those of the headers, whatever bytes stand before them. -/
theorem membersFrom_container (hr : r.TellsOf body headers)
    (hplain : ∀ h ∈ headers, h.Plain body.length) :
    membersFrom (body ++ headers.flatMap Header.write ++ r.write) none
        (endOffsets (body ++ headers.flatMap Header.write ++ r.write)) =
      .ok (headers.map Member.plain) := by
  have hsignature : littleEndian 4 EndRecord.signature ≠ [] := by decide
  obtain ⟨tail, htail⟩ := r.write_eq_signature_append
  obtain ⟨later, earlier, hoffsets, hlater⟩ :=
    offsetsOf_append hsignature (body ++ headers.flatMap Header.write) 0 tail
  rw [← htail, Nat.zero_add] at hoffsets
  have hcut : ∀ n ∈ later,
      (body ++ headers.flatMap Header.write ++ r.write).length < n + r.write.length := by
    intro n hn
    have := hlater n hn
    rw [List.length_append]
    omega
  obtain ⟨error, hskip⟩ := membersFrom_skip
    ((body ++ headers.flatMap Header.write).length :: earlier) hcut none
  have hmembers := members?_write (d := ⟨body.length, headers.length, 0, true⟩) rfl hplain r.write
  rw [endOffsets, hoffsets, hskip, membersFrom, directoryAt_endRecord hr]
  simp only [directoryMembers?, if_true, List.append_assoc, List.drop_left, hmembers]

end Directory

/-! ## 5. Names and payloads -/

/-- The member stands in the bytes with the name and the data of the entry. -/
structure Holds (bytes : Bytes) (m : Member) (e : Entry) : Prop where
  name : m.name = writtenName e
  data : rawData bytes m = .ok (writtenData e)
  content : payload bytes m = .ok (writtenPayload e)

/-- The data of a member is what follows its local header. -/
theorem rawData_plain {h : Header} (body data rest : Bytes) (hfits : h.Fits)
    (hflags : h.flags = 0 ∨ h.flags = Nat.pow 2 Header.utf8Flag)
    (hmethod : h.method = Header.storedMethod ∨ h.method = Header.deflatedMethod)
    (hoffset : h.offset = body.length) (hsize : h.compressedSize = data.length) :
    rawData (body ++ (h.writeLocal ++ data ++ rest)) (.plain h) = .ok data := by
  have hbit : h.flags.testBit Header.encryptedFlag = false := by
    rcases hflags with hflags | hflags <;> rw [hflags] <;> decide
  have hknown : (h.method != Header.storedMethod && h.method != Header.deflatedMethod) = false := by
    rcases hmethod with hmethod | hmethod <;> rw [hmethod] <;> decide
  have hlocal := Header.localLength?_writeLocal hfits (data ++ rest)
  have hdrop : (body ++ (h.writeLocal ++ (data ++ rest))).drop (body.length + h.writeLocal.length) =
      data ++ rest := by
    rw [← List.append_assoc, ← List.length_append, List.drop_left]
  simp only [rawData, Member.plain, hbit, hoffset, hsize, hknown, List.drop_left, List.append_assoc,
    hlocal, hdrop, List.take_left, Bool.false_eq_true, if_false]

section Entry

variable {offset size : Nat} {e : Entry}

/-- A name is read in the way in which its header says that it is written. -/
theorem name_plain_headerOf :
    (Member.plain (headerOf offset size e)).name = writtenName e := by
  show Member.decodeText (headerOf offset size e).flags (Text.encode (writtenName e)) = _
  simp only [headerOf, Member.decodeText]
  split
  · rename_i h
    have hascii : ∀ c ∈ (writtenName e).toList, c.toNat < 0x80 := by simpa using h
    have hbit : Nat.testBit 0 Header.utf8Flag = false := by decide
    rw [hbit, if_neg (by simp), Text.decodeCodePage_encode hascii]
  · have hbit : Nat.testBit (Nat.pow 2 Header.utf8Flag) Header.utf8Flag = true := by decide
    rw [hbit, if_pos rfl, Text.decodeLossy_encode]

theorem flags_headerOf (offset size : Nat) (e : Entry) :
    (headerOf offset size e).flags = 0 ∨
      (headerOf offset size e).flags = Nat.pow 2 Header.utf8Flag := by
  simp only [headerOf]
  split
  · exact .inl rfl
  · exact .inr rfl

theorem method_headerOf_file (h : e.kind = .file) :
    (headerOf offset size e).method = Header.deflatedMethod := by
  simp [headerOf, h]

theorem method_headerOf_directory (h : e.kind = .directory) :
    (headerOf offset size e).method = Header.storedMethod := by
  simp [headerOf, h]

theorem method_headerOf (offset size : Nat) (e : Entry) :
    (headerOf offset size e).method = Header.storedMethod ∨
      (headerOf offset size e).method = Header.deflatedMethod := by
  cases h : e.kind with
  | file => exact .inr (method_headerOf_file h)
  | directory => exact .inl (method_headerOf_directory h)

theorem headerOf_fits (hname : (Text.encode (writtenName e)).length < 256 ^ 2)
    (hpayload : (writtenPayload e).length < 256 ^ 4) (hsize : size < 256 ^ 4)
    (hoffset : offset < 256 ^ 4) : (headerOf offset size e).Fits where
  maker := by show unixMaker < _; decide
  flags := by rcases flags_headerOf offset size e with h | h <;> rw [h] <;> decide
  method := by rcases method_headerOf offset size e with h | h <;> rw [h] <;> decide
  time := by show 0 < _; decide
  date := by show writtenDate < _; decide
  crc := (crc32 (writtenPayload e)).toNat_lt
  compressedSize := hsize
  size := hpayload
  attributes := by simp only [headerOf]; split <;> decide
  offset := hoffset
  rawName := hname
  extra := by show 0 < _; decide
  rawComment := by show 0 < _; decide

theorem checked_headerOf :
    checked (.plain (headerOf offset size e)) (writtenPayload e) = .ok (writtenPayload e) := by
  simp [checked, Member.plain, headerOf]

/-- A member is found where its header says. -/
theorem holds_headerOf (body rest : Bytes)
    (hfits : (headerOf body.length (writtenData e).length e).Fits) :
    Holds (body ++ ((headerOf body.length (writtenData e).length e).writeLocal ++
        writtenData e ++ rest))
      (.plain (headerOf body.length (writtenData e).length e)) e := by
  have hdata := rawData_plain body (writtenData e) rest hfits (flags_headerOf _ _ e)
    (method_headerOf _ _ e) rfl rfl
  refine ⟨name_plain_headerOf, hdata, ?_⟩
  rw [payload, hdata]
  show (if (headerOf body.length (writtenData e).length e).method == Header.storedMethod then _
    else _) = _
  cases hkind : e.kind with
  | directory =>
    have hempty : writtenData e = writtenPayload e := by simp [writtenData, writtenPayload, hkind]
    rw [method_headerOf_directory hkind, if_pos (by decide)]
    conv => lhs; arg 2; rw [hempty]
    exact checked_headerOf
  | file =>
    have hinflate : inflate? (writtenData e) = some (writtenPayload e) := by
      simp only [writtenData, writtenPayload, hkind, inflate?_deflate]
    rw [method_headerOf_file hkind, if_neg (by decide)]
    simp only [hinflate]
    exact checked_headerOf

end Entry

/-- The members stand in the container one after the other. -/
theorem holds_layout {bytes : Bytes} (body rest : Bytes) {entries : List Entry}
    (hbytes : bytes = body ++ (layout body.length entries).1 ++ rest)
    (hfits : ∀ h ∈ headersFrom body.length entries, h.Fits) :
    List.Forall₂ (Holds bytes) ((headersFrom body.length entries).map Member.plain) entries := by
  induction entries generalizing body with
  | nil => exact .nil
  | cons e others ih =>
    let member := (headerOf body.length (writtenData e).length e).writeLocal ++ writtenData e
    have hlength : (body ++ member).length = body.length + member.length := List.length_append
    have hfirst := holds_headerOf body ((layout (body ++ member).length others).1 ++ rest)
      (hfits _ List.mem_cons_self)
    have hothers := ih (body ++ member) (by
      rw [hbytes, layout, ← hlength]
      simp only [List.append_assoc, member]) (by
      intro h hh
      rw [hlength] at hh
      exact hfits h (List.mem_cons_of_mem _ hh))
    rw [hlength] at hothers
    refine .cons ?_ hothers
    rw [hbytes, layout, ← hlength]
    simpa only [List.append_assoc, member] using hfirst

/-! ## 6. The container -/

/-- The names and payloads of members. -/
def contents (bytes : Bytes) : List Member → Except Error (List (String × Bytes))
  | [] => .ok []
  | m :: rest => do
    let content ← payload bytes m
    let others ← contents bytes rest
    return (m.name, content) :: others

/-- What a container holds: the name and the payload of each member. -/
def listing (bytes : Bytes) : Except Error (List (String × Bytes)) := do
  contents bytes (← members bytes)

/-- The entries can be written with the numbers of a container: two bytes for the length of a name
and for the number of members, four for sizes and offsets. -/
structure Fits (entries : List Entry) : Prop where
  names : ∀ e ∈ entries, (Text.encode (writtenName e)).length < 256 ^ 2
  payloads : ∀ e ∈ entries, (writtenPayload e).length < 256 ^ 4
  count : entries.length < 256 ^ 2
  bytes : (containerBytes entries).length < 256 ^ 4

theorem headersFrom_plain {offset start : Nat} {entries : List Entry}
    (hnames : ∀ e ∈ entries, (Text.encode (writtenName e)).length < 256 ^ 2)
    (hpayloads : ∀ e ∈ entries, (writtenPayload e).length < 256 ^ 4)
    (hstart : offset + (layout offset entries).1.length ≤ start) (hlimit : start < 256 ^ 4) :
    ∀ h ∈ headersFrom offset entries, h.Plain start := by
  induction entries generalizing offset with
  | nil => simp [headersFrom]
  | cons e others ih =>
    have hlocal := (headerOf offset (writtenData e).length e).length_writeLocal
    simp only [layout, List.length_append] at hstart
    intro h hh
    rcases List.mem_cons.mp hh with rfl | hh
    · have hfits : (headerOf offset (writtenData e).length e).Fits :=
        headerOf_fits (hnames e List.mem_cons_self) (hpayloads e List.mem_cons_self) (by omega)
          (by omega)
      refine ⟨hfits, rfl, ?_, ?_⟩
      · rcases method_headerOf offset (writtenData e).length e with h | h <;> rw [h] <;> decide
      · show offset < start
        omega
    · refine ih (fun e he => hnames e (List.mem_cons_of_mem _ he))
        (fun e he => hpayloads e (List.mem_cons_of_mem _ he)) ?_ h hh
      simp only [List.length_append]
      omega

theorem insertMember_eq_append {m : Member} {done : List Member}
    (h : m.name ∉ done.map (·.name)) : insertMember m done = done ++ [m] := by
  induction done with
  | nil => rfl
  | cons other rest ih =>
    simp only [List.map_cons, List.mem_cons, not_or] at h
    have hne : (other.name == m.name) = false := by simpa using Ne.symm h.1
    simp only [insertMember, hne, ih h.2, List.cons_append, Bool.false_eq_true, if_false]

/-- Members of different names all stay, in their order. -/
theorem foldl_insertMember {all : List Member} (done : List Member)
    (h : ((done ++ all).map (·.name)).Nodup) :
    all.foldl (fun done m => insertMember m done) done = done ++ all := by
  induction all generalizing done with
  | nil => simp
  | cons m rest ih =>
    have hnew : m.name ∉ done.map (·.name) := by
      intro hmem
      rw [List.map_append, List.nodup_append] at h
      exact h.2.2 _ hmem _ (by simp) rfl
    rw [List.foldl_cons, insertMember_eq_append hnew, ih (done ++ [m]) (by simpa using h)]
    simp

section Held

variable {bytes : Bytes} {all : List Member} {entries : List Entry}

theorem names_of_holds (h : List.Forall₂ (Holds bytes) all entries) :
    all.map (·.name) = entries.map writtenName := by
  induction h with
  | nil => rfl
  | cons hfirst _ ih => simp only [List.map_cons, hfirst.name, ih]

theorem contents_of_holds (h : List.Forall₂ (Holds bytes) all entries) :
    contents bytes all = .ok (entries.map fun e => (writtenName e, writtenPayload e)) := by
  induction h with
  | nil => rfl
  | cons hfirst _ ih =>
    simp only [contents, hfirst.content, hfirst.name, ih, List.map_cons]
    rfl

/-- A regular entry is read as it was written: its name tells its kind. -/
theorem entry_of_holds {m : Member} {e : Entry} (hregular : e.Regular) (h : Holds bytes m e) :
    entry bytes m = .ok e := by
  have hname : m.name = e.name := h.name.trans hregular.slashed.writtenName
  obtain ⟨name, kind, content⟩ := e
  cases kind with
  | directory =>
    have hslash : name.toList.getLast? = some '/' := hregular.slashed rfl
    have hends : isDirectoryName name = true := hregular.slashed.isDirectoryName rfl
    have hempty : content = [] := hregular.empty rfl
    rw [entry, hname, if_pos hends, h.data, hempty]
    simp only [Entry.directory, Entry.withSlash, hslash]
    rfl
  | file =>
    have hends : ¬ isDirectoryName name = true := by simp [hregular.file rfl]
    rw [entry, hname, if_neg hends, h.content]
    rfl

theorem entriesOf_of_holds (h : List.Forall₂ (Holds bytes) all entries)
    (hregular : ∀ e ∈ entries, e.Regular) : entriesOf bytes all = .ok entries := by
  induction h with
  | nil => rfl
  | cons hfirst _ ih =>
    have hothers := ih fun e he => hregular e (List.mem_cons_of_mem _ he)
    simp only [entriesOf, entry_of_holds (hregular _ List.mem_cons_self) hfirst, hothers]
    rfl

end Held

section Written

variable {entries : List Entry}

/-- The members of a written container stand in it in the order of the entries. -/
theorem members_containerBytes (hfits : Fits entries) (hnames : (entries.map writtenName).Nodup) :
    ∃ all, members (containerBytes entries) = .ok all ∧
      List.Forall₂ (Holds (containerBytes entries)) all entries := by
  let headers := headersFrom 0 entries
  let body := (layout 0 entries).1
  have hbytes : containerBytes entries =
      body ++ headers.flatMap Header.write ++ (endRecordOf body headers).write := by
    simp only [containerBytes, endRecordOf, layout_directory, length_headersFrom, headers, body]
  have hlimit := hfits.bytes
  rw [hbytes, List.length_append, List.length_append] at hlimit
  have hcount : headers.length < 256 ^ 2 := by
    rw [length_headersFrom]
    exact hfits.count
  have hends : (endRecordOf body headers).TellsOf body headers :=
    endRecordOf_tellsOf hcount (by omega) (by omega)
  have hplain : ∀ h ∈ headers, h.Plain body.length :=
    headersFrom_plain hfits.names hfits.payloads (by simp [body]) (by omega)
  have hholds : List.Forall₂ (Holds (containerBytes entries)) (headers.map Member.plain) entries :=
    holds_layout [] (headers.flatMap Header.write ++ (endRecordOf body headers).write)
      (by rw [hbytes, List.append_assoc]; rfl) fun h hh => (hplain h hh).toFits
  have hdistinct : ((headers.map Member.plain).map (·.name)).Nodup := by
    rw [names_of_holds hholds]
    exact hnames
  refine ⟨headers.map Member.plain, ?_, hholds⟩
  rw [members, hbytes, membersFrom_container hends hplain]
  exact congrArg Except.ok (foldl_insertMember [] hdistinct)

/-- **A written container lists what was written.** -/
theorem listing_containerBytes (hfits : Fits entries) (hnames : (entries.map writtenName).Nodup) :
    listing (containerBytes entries) =
      .ok (entries.map fun e => (writtenName e, writtenPayload e)) := by
  obtain ⟨all, hall, hholds⟩ := members_containerBytes hfits hnames
  rw [listing, hall]
  exact contents_of_holds hholds

/-- **A written container is read back**, if the names tell the kinds of the entries. -/
theorem read_containerBytes (hfits : Fits entries) (hnames : (entries.map writtenName).Nodup)
    (hregular : ∀ e ∈ entries, e.Regular) : read (containerBytes entries) = .ok entries := by
  obtain ⟨all, hall, hholds⟩ := members_containerBytes hfits hnames
  rw [read, hall]
  exact entriesOf_of_holds hholds hregular

end Written

end Zip

end FatJar
