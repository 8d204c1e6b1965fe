/-
FatJar.Proofs.FileTree.Write — a file that is written is read at its path.

Writing follows a path as reading does, except that its last name may be new. The
way to the file goes through directories and links only, so the file that is put
at its end changes nothing on it, and reading takes the same way (`Lands`). What is
known of a write that succeeds is in `Writes`.

Contents:
1. where a file may be put;
2. the way to it;
3. writing and reading.
-/
import FatJar.Proofs.FileTree.Walk

namespace FatJar.FileTree

variable {t t' : FileTree} {links : Nat} {place x : Place} {steps : List String} {last : LastStep}
  {p : Path} {content : Bytes} {left : Nat} {found : Place} {name : String}

/-! ## 1. Where a file may be put -/

/-- A file, or nothing yet. -/
def IsWritable : Option Node → Prop
  | none | some (.file _) => True
  | _ => False

theorem IsWritable.none_or_file {node : Option Node} (h : IsWritable node) :
    node = none ∨ ∃ old, node = some (.file old) := by
  cases node with
  | none => exact .inl rfl
  | some node =>
    cases node with
    | file old => exact .inr ⟨old, rfl⟩
    | directory => exact h.elim
    | link target => exact h.elim

/-- A file that is put where it may be leaves directories and links as they are. -/
theorem node?_put_writable {q : Place} {node : Node} (hne : x ≠ []) (hx : IsWritable (t.node? x))
    (hq : t.node? q = some node) (hnode : ¬ IsWritable (some node)) :
    (t.put x (.file content)).node? q = some node := by
  rw [node?_put hne, if_neg, hq]
  rintro rfl
  exact hnode (hq ▸ hx)

/-! ## 2. The way to it -/

/-- The step by which the last name is reached. -/
def LastStep.names : LastStep → List String
  | .name last _ => [last]
  | _ => []

/-- The steps lead to a place for a file, which is found there when it has been put. -/
structure Lands (t : FileTree) (links : Nat) (place : Place) (steps : List String)
    (last : LastStep) (x : Place) (content : Bytes) : Prop where
  ne_nil : x ≠ []
  writable : IsWritable (t.node? x)
  named : ∃ name, last = .name name false
  walks : ∃ left, Walks (t.put x (.file content)) links place (steps ++ last.names) left x

theorem steps_of_lastStep {name : String} (h : lastStep p = .name name false) :
    p.steps = p.parts.dropLast ++ (lastStep p).names := by
  obtain ⟨-, -, hslash⟩ := lastStep_eq_name_iff.mp h
  rw [Path.steps, hslash, h, LastStep.names, ← parts_eq_of_lastStep h]
  rfl

theorem isName_of_lastStep {name : String} {slash : Bool} (h : lastStep p = .name name slash) :
    IsName name :=
  (lastStep_eq_name_iff.mp h).2.1

/-- What is reached by the last name, where a file stands or nothing. -/
theorem lands_of_writable {name : String} (hdir : t.node? place = some .directory)
    (hname : IsName name) (hshort : isLong name = false)
    (hx : IsWritable (t.node? (place ++ [name]))) :
    Lands t links place [] (.name name false) (place ++ [name]) content := by
  have hne : place ++ [name] ≠ [] := by simp
  have hfile : (t.put (place ++ [name]) (.file content)).node? (place ++ [name]) =
      some (.file content) := by
    rw [node?_put hne, if_pos rfl]
  exact ⟨hne, hx, ⟨name, rfl⟩, links,
    .enter (node?_put_writable hne hx hdir id) hname hshort hfile (fun _ => nofun) .nil⟩

/-- The place for a file is the end of a walk. -/
theorem lands_of_writePlace (hlast : ∀ name slash, last = .name name slash → IsName name)
    (h : t.writePlace links place steps last = .ok x) :
    Lands t links place steps last x content := by
  fun_induction writePlace t links place steps last with
  | case7 place hdir name hshort target hlink fewer ih =>
    -- a link under the last name: its target takes the place of the name
    obtain ⟨hne, hx, ⟨name', hnamed⟩, left, hwalks⟩ :=
      ih (fun _ _ => isName_of_lastStep) h
    rw [← steps_of_lastStep hnamed, ← List.append_nil (Path.steps _)] at hwalks
    exact ⟨hne, hx, ⟨name, rfl⟩, left, .follow (node?_put_writable hne hx hdir id)
      (hlast name false rfl) (by simpa using hshort) (node?_put_writable hne hx hlink id) hwalks⟩
  | case8 links place hdir name hshort old hfile =>
    cases h
    exact lands_of_writable hdir (hlast name false rfl) (by simpa using hshort)
      (by rw [hfile]; trivial)
  | case9 links place hdir name hshort hnone =>
    cases h
    exact lands_of_writable hdir (hlast name false rfl) (by simpa using hshort)
      (by rw [hnone]; trivial)
  | case11 links place last hdir name rest hdot ih =>
    obtain ⟨hne, hx, hnamed, left, hwalks⟩ := ih hlast h
    rw [beq_iff_eq.mp hdot]
    exact ⟨hne, hx, hnamed, left, .here (node?_put_writable hne hx hdir id) hwalks⟩
  | case12 links place last hdir name rest hdot hdots ih =>
    obtain ⟨hne, hx, hnamed, left, hwalks⟩ := ih hlast h
    rw [beq_iff_eq.mp hdots]
    exact ⟨hne, hx, hnamed, left, .up (node?_put_writable hne hx hdir id) hwalks⟩
  | case16 place last hdir name rest hdot hdots hshort target hlink fewer ih =>
    obtain ⟨hne, hx, hnamed, left, hwalks⟩ := ih hlast h
    rw [List.append_assoc] at hwalks
    exact ⟨hne, hx, hnamed, left, .follow (node?_put_writable hne hx hdir id)
      ⟨by simpa using hdot, by simpa using hdots⟩ (by simpa using hshort)
      (node?_put_writable hne hx hlink id) hwalks⟩
  | case17 links place last hdir name rest hdot hdots hshort node hnolink hnode ih =>
    obtain ⟨hne, hx, hnamed, left, hwalks⟩ := ih hlast h
    -- the way goes on from here, so this is a directory
    have hdirectory : t.node? (place ++ [name]) = some .directory := by
      cases node with
      | directory => exact hnode
      | link target => exact absurd rfl (hnolink target)
      | file old =>
        rw [writePlace.eq_def, hnode] at h
        cases h
    exact ⟨hne, hx, hnamed, left, .enter (node?_put_writable hne hx hdir id)
      ⟨by simpa using hdot, by simpa using hdots⟩ (by simpa using hshort)
      (node?_put_writable hne hx hdirectory id) (fun _ => nofun) hwalks⟩
  | _ => cases h

/-- The walk to the place for a file goes through the directory that holds the last name. The file
is put there, unless a link stands under the name. -/
theorem exists_holder_of_writePlace (h : t.writePlace links place steps last = .ok x) :
    ∃ name left holder, last = .name name false ∧ Walks t links place steps left holder ∧
      t.node? holder = some .directory ∧
      (x = holder ++ [name] ∨ ∃ target, t.node? (holder ++ [name]) = some (.link target)) := by
  fun_induction writePlace t links place steps last with
  | case7 place hdir name hshort target hlink fewer ih =>
    exact ⟨name, _, place, rfl, .nil, hdir, .inr ⟨target, hlink⟩⟩
  | case8 links place hdir name hshort old hfile =>
    cases h
    exact ⟨name, _, place, rfl, .nil, hdir, .inl rfl⟩
  | case9 links place hdir name hshort hnone =>
    cases h
    exact ⟨name, _, place, rfl, .nil, hdir, .inl rfl⟩
  | case11 links place last hdir name rest hdot ih =>
    obtain ⟨lastName, left, holder, hlast, hwalks, hholder⟩ := ih h
    rw [beq_iff_eq.mp hdot]
    exact ⟨lastName, left, holder, hlast, .here hdir hwalks, hholder⟩
  | case12 links place last hdir name rest hdot hdots ih =>
    obtain ⟨lastName, left, holder, hlast, hwalks, hholder⟩ := ih h
    rw [beq_iff_eq.mp hdots]
    exact ⟨lastName, left, holder, hlast, .up hdir hwalks, hholder⟩
  | case16 place last hdir name rest hdot hdots hshort target hlink fewer ih =>
    obtain ⟨lastName, left, holder, hlast, hwalks, hholder⟩ := ih h
    exact ⟨lastName, left, holder, hlast, .follow hdir ⟨by simpa using hdot, by simpa using hdots⟩
      (by simpa using hshort) hlink hwalks, hholder⟩
  | case17 links place last hdir name rest hdot hdots hshort node hnolink hnode ih =>
    obtain ⟨lastName, left, holder, hlast, hwalks, hholder⟩ := ih h
    exact ⟨lastName, left, holder, hlast, .enter hdir ⟨by simpa using hdot, by simpa using hdots⟩
      (by simpa using hshort) hnode hnolink hwalks, hholder⟩
  | _ => cases h

/-- Where a walk ends in a directory, a file may be put under a name that is free or a file's. -/
theorem writePlace_of_walks (hw : Walks t links place steps left found)
    (hdir : t.node? found = some .directory) (hshort : isLong name = false)
    (hx : IsWritable (t.node? (found ++ [name]))) :
    t.writePlace links place steps (.name name false) = .ok (found ++ [name]) := by
  induction hw with
  | nil =>
    rw [writePlace.eq_def, hdir]
    rcases hx.none_or_file with hnode | ⟨old, hnode⟩ <;> simp [hshort, hnode]
  | here hplace _ ih =>
    rw [writePlace.eq_def, hplace]
    simpa using ih hdir hx
  | up hplace _ ih =>
    rw [writePlace.eq_def, hplace]
    simpa using ih hdir hx
  | follow hplace hentered hfits hnode _ ih =>
    rw [writePlace.eq_def, hplace]
    simpa [hentered.ne_dot, hentered.ne_dots, hfits, hnode] using ih hdir hx
  | @enter _ _ _ _ _ node _ hplace hentered hfits hnode hlink _ ih =>
    rw [writePlace.eq_def, hplace]
    cases node with
    | link target => exact absurd rfl (hlink target)
    | file old => simpa [hentered.ne_dot, hentered.ne_dots, hfits, hnode] using ih hdir hx
    | directory => simpa [hentered.ne_dot, hentered.ne_dots, hfits, hnode] using ih hdir hx

/-! ## 3. Writing and reading -/

/-- A write that succeeds puts a file in place of one or of nothing, to which the path then
leads. -/
structure Writes (t t' : FileTree) (p : Path) (content : Bytes) (x : Place) : Prop where
  ne_nil : x ≠ []
  writable : IsWritable (t.node? x)
  eq_put : t' = t.put x (.file content)
  resolve : t'.resolve p = .ok x
  /-- The file is in the directory that holds the last name, unless a link stands there. -/
  held : ∃ name h, lastStep p = .name name false ∧
    t.holder maxLinks t.workingDirectory p = .ok h ∧
    (x = h ++ [name] ∨ ∃ target, t.node? (h ++ [name]) = some (.link target))

theorem exists_writes (h : t.write p content = .ok t') : ∃ x, Writes t t' p content x := by
  obtain ⟨⟨⟩, hcheck, hrest⟩ := Outcome.bind_eq_ok.mp h
  obtain ⟨x, hplace, hput⟩ := Outcome.bind_eq_ok.mp hrest
  cases hput
  have hlands : Lands t maxLinks (start t.workingDirectory p) p.parts.dropLast (lastStep p) x
      content := lands_of_writePlace (fun _ _ => isName_of_lastStep) hplace
  obtain ⟨hne, hx, ⟨name, hnamed⟩, left, hwalks⟩ := hlands
  rw [← steps_of_lastStep hnamed] at hwalks
  have hresolve : (t.put x (.file content)).resolve p = .ok x :=
    resolve_eq_ok_iff.mpr ⟨hcheck, left, by rwa [workingDirectory_put]⟩
  obtain ⟨last, rest, holder, hlast, hholder, hdir, hheld⟩ := exists_holder_of_writePlace hplace
  exact ⟨x, hne, hx, rfl, hresolve, last, holder, hlast,
    holder_eq_ok_iff.mpr ⟨hcheck, ⟨rest, hholder⟩, hdir⟩, hheld⟩

/-- A file is written in the directory to which the parts before its name lead. -/
theorem ReadsAs.write_of_walks {before : List String} (h : ReadsAs p (before ++ [name]))
    (hname : IsName name) (hw : Walks t maxLinks t.workingDirectory before left found)
    (hdir : t.node? found = some .directory) (hshort : isLong name = false)
    (hx : IsWritable (t.node? (found ++ [name]))) :
    t.write p content = .ok (t.put (found ++ [name]) (.file content)) := by
  have hlast : lastStep p = .name name false := by
    refine lastStep_eq_name_iff.mpr ⟨?_, hname, h.noSlash⟩
    rw [h.parts_eq]
    exact List.getLast?_concat
  have hplace := writePlace_of_walks hw hdir hshort hx
  rw [write, h.check, h.parts_eq, start, h.relative, hlast, List.dropLast_concat]
  simp only [bind, Except.bind, Bool.false_eq_true, if_false, hplace]
  rfl

/-- Where a file may be put, it stands in nobody's way. -/
theorem resolve_put_writable {found : Place} (hne : x ≠ []) (hx : IsWritable (t.node? x))
    (hresolve : t.resolve p = .ok found) : (t.put x (.file content)).resolve p = .ok found := by
  obtain ⟨hcheck, left, hwalks⟩ := resolve_eq_ok_iff.mp hresolve
  have hdir : t.node? x ≠ some .directory := by
    rcases hx.none_or_file with hnone | ⟨old, hold⟩ <;> simp [*]
  have hlink : ∀ target, t.node? x ≠ some (.link target) := by
    rcases hx.none_or_file with hnone | ⟨old, hold⟩ <;> simp [*]
  rw [resolve, hcheck, workingDirectory_put]
  rcases hwalks.walk_put_file hne hdir with hwalk | ⟨⟨target, hnode⟩, -⟩
  · exact hwalk
  · exact absurd hnode (hlink target)

/-- What has been written is read. -/
theorem read_write (h : t.write p content = .ok t') : t'.read p = .ok content := by
  obtain ⟨x, hne, -, rfl, hresolve, -⟩ := exists_writes h
  have hnode : (t.put x (.file content)).node? x = some (.file content) := by
    rw [node?_put hne, if_pos rfl]
  rw [read, hresolve]
  simp [bind, Except.bind, hnode]

end FatJar.FileTree
