/-
FatJar.Proofs.Manifest.Setting — attributes that are set one after the other.

A setting that is not refused goes where an attribute of its name, in any case,
stands already, or else to the end. So what a list of settings leaves can be told
from the list alone (`Settles`): one attribute for each name, in the order in which
the names first occur, with the first spelling and the last value.

A setting that is refused leaves nothing and is not looked at again, so a manifest to
which attributes are set one after the other is what the settings leave that have not
been refused (`ofSettings_settles`).

Contents:
1. one setting;
2. what putting an attribute does to the others;
3. what settings leave;
4. manifests that are made by settings;
5. settings that are refused.
-/
import FatJar.Manifest.Basic
import FatJar.Proofs.Outcome

namespace FatJar.Manifest

variable {m m' : Manifest} {name value : String} {attributes settings : List Attribute}

/-! ## 1. One setting -/

/-- A setting that is not refused puts the value among the attributes. -/
theorem set_eq_ok_iff :
    m.set name value = .ok m' ↔
      isName name = true ∧ isValue value = true ∧ m' = ⟨put name value m.attributes⟩ := by
  rw [set]
  cases hname : isName name with
  | false => simp
  | true =>
    cases hvalue : isValue value with
    | false => simp
    | true => simp [eq_comm]

/-- No character of a value is forbidden. -/
theorem not_mem_of_isValue {c : Char} (h : isValue value = true) (hc : isForbidden c = true) :
    c ∉ value.toList := by
  intro hmem
  have hall : value.toList.any isForbidden = true := List.any_eq_true.mpr ⟨c, hmem, hc⟩
  simp [isValue, hall] at h

/-! ## 2. Putting -/

/-- What holds of the names and of the values holds after a name and a value of this kind have been
put among them. -/
theorem forall_put {N V : String → Prop} (hname : N name) (hvalue : V value)
    (h : ∀ a ∈ attributes, N a.name ∧ V a.value) :
    ∀ a ∈ put name value attributes, N a.name ∧ V a.value := by
  induction attributes with
  | nil =>
    intro a ha
    rw [List.mem_singleton.mp ha]
    exact ⟨hname, hvalue⟩
  | cons b rest ih =>
    intro a ha
    rw [put] at ha
    split at ha
    · rcases List.mem_cons.mp ha with rfl | ha
      · exact ⟨(h b List.mem_cons_self).1, hvalue⟩
      · exact h a (List.mem_cons_of_mem b ha)
    · rcases List.mem_cons.mp ha with rfl | ha
      · exact h a List.mem_cons_self
      · exact ih (fun c hc => h c (List.mem_cons_of_mem b hc)) a ha

/-- Putting an attribute of another name leaves the one that is looked for alone. -/
theorem find?_put {other : String} (h : Text.sameIgnoringCase name other = false)
    (attributes : List Attribute) :
    (put name value attributes).find? (fun a => Text.sameIgnoringCase a.name other) =
      attributes.find? fun a => Text.sameIgnoringCase a.name other := by
  induction attributes with
  | nil => simp [put, h]
  | cons a attributes ih =>
    rw [put]
    split
    · rename_i hsame
      -- the attribute that is replaced has the name that is set, and so not the other one
      have hother : Text.sameIgnoringCase a.name other = false := by
        rw [← h, Text.sameIgnoringCase, Text.sameIgnoringCase, beq_iff_eq.mp hsame]
      simp [hother]
    · simp only [List.find?_cons, ih]

theorem get?_put (attributes : List Attribute) :
    get? ⟨put name value attributes⟩ name = some value := by
  induction attributes with
  | nil => simp [get?, put, Text.sameIgnoringCase]
  | cons a attributes ih =>
    rw [put]
    split
    · rename_i hsame
      simp [get?, hsame]
    · rename_i hsame
      simpa [get?, hsame] using ih

/-- A value is found under any spelling of its name. -/
theorem get?_congr {other : String} (h : Text.sameIgnoringCase name other = true) :
    m.get? name = m.get? other := by
  simp only [get?, Text.sameIgnoringCase, beq_iff_eq.mp h]

/-- Attributes of other names are passed over. -/
theorem put_append {before : List Attribute}
    (h : ∀ a ∈ before, Text.sameIgnoringCase a.name name = false) :
    put name value (before ++ attributes) = before ++ put name value attributes := by
  induction before with
  | nil => rfl
  | cons a rest ih =>
    rw [List.cons_append, put, if_neg (by simp [h a List.mem_cons_self]),
      ih fun b hb => h b (List.mem_cons_of_mem a hb), List.cons_append]

/-- An attribute of a new name is added at the end. -/
theorem set_new (hname : isName name = true) (hvalue : isValue value = true)
    (hnew : ∀ a ∈ m.attributes, Text.sameIgnoringCase a.name name = false) :
    m.set name value = .ok ⟨m.attributes ++ [⟨name, value⟩]⟩ := by
  have hput : put name value (m.attributes ++ []) = m.attributes ++ put name value [] :=
    put_append hnew
  rw [List.append_nil] at hput
  exact set_eq_ok_iff.mpr ⟨hname, hvalue, by rw [hput]; rfl⟩

/-- The spellings that are there stay, in their places. -/
theorem names_prefix_put (attributes : List Attribute) :
    attributes.map (·.name) <+: (put name value attributes).map (·.name) := by
  induction attributes with
  | nil => exact List.nil_prefix
  | cons a rest ih =>
    rw [put]
    split
    · exact List.prefix_rfl
    · exact List.prefix_cons_inj a.name |>.mpr ih

/-! ## 3. What settings leave -/

/-- A name without the case of its letters. -/
def key (a : Attribute) : String :=
  Text.lowercase a.name

theorem sameIgnoringCase_iff {a b : Attribute} :
    Text.sameIgnoringCase a.name b.name = true ↔ key a = key b :=
  beq_iff_eq

/-- The settings of a name, in any case. -/
def settingsOf (name : String) (settings : List Attribute) : List Attribute :=
  settings.filter fun a => Text.sameIgnoringCase a.name name

/-- The attributes are what the settings leave: one for each name, without regard to case, in the
order in which the names first occur, with the first spelling and the last value. -/
structure Settles (settings attributes : List Attribute) : Prop where
  keys : attributes.map key = (settings.map key).eraseDups
  nodup : (attributes.map key).Nodup
  spelling : ∀ a ∈ attributes, (settingsOf a.name settings).head?.map (·.name) = some a.name
  value : ∀ a ∈ attributes, (settingsOf a.name settings).getLast?.map (·.value) = some a.value

theorem settingsOf_concat_same {a b : Attribute} (h : key b = key a) :
    settingsOf a.name (settings ++ [b]) = settingsOf a.name settings ++ [b] := by
  have hsame := sameIgnoringCase_iff.mpr h
  simp [settingsOf, hsame]

theorem settingsOf_concat_ne {a b : Attribute} (h : key b ≠ key a) :
    settingsOf a.name (settings ++ [b]) = settingsOf a.name settings := by
  have hne : Text.sameIgnoringCase b.name a.name = false :=
    Bool.eq_false_iff.mpr fun hsame => h (sameIgnoringCase_iff.mp hsame)
  simp [settingsOf, hne]

theorem settingsOf_eq_nil {a : Attribute} (h : key a ∉ settings.map key) :
    settingsOf a.name settings = [] := by
  rw [settingsOf, List.filter_eq_nil_iff]
  intro b hb hsame
  exact h (List.mem_map.mpr ⟨b, hb, sameIgnoringCase_iff.mp hsame⟩)

theorem keys_put (a : Attribute) (attributes : List Attribute) :
    (put a.name a.value attributes).map key =
      if key a ∈ attributes.map key then attributes.map key
      else attributes.map key ++ [key a] := by
  induction attributes with
  | nil => rfl
  | cons b rest ih =>
    rw [put]
    split
    · rename_i hsame
      rw [if_pos (by simp [sameIgnoringCase_iff.mp hsame])]
      rfl
    · rename_i hsame
      have hne : key a ≠ key b := fun heq => hsame (sameIgnoringCase_iff.mpr heq.symm)
      by_cases hmem : key a ∈ rest.map key
      · have hmem' : key a ∈ (b :: rest).map key := List.mem_cons_of_mem _ hmem
        rw [if_pos hmem', List.map_cons, ih, if_pos hmem]
        rfl
      · have hmem' : key a ∉ (b :: rest).map key := by simpa [hne] using hmem
        rw [if_neg hmem', List.map_cons, ih, if_neg hmem]
        rfl

/-- Where every name stands once, an attribute after a setting has another name and stood there
before, or has taken a new value, or is new. -/
theorem mem_put {a b : Attribute} (hnodup : (attributes.map key).Nodup)
    (hb : b ∈ put a.name a.value attributes) :
    (b ∈ attributes ∧ key a ≠ key b) ∨
    (∃ old ∈ attributes, key a = key old ∧ b = ⟨old.name, a.value⟩) ∨
    (key a ∉ attributes.map key ∧ b = a) := by
  induction attributes with
  | nil => exact .inr (.inr ⟨List.not_mem_nil, List.mem_singleton.mp hb⟩)
  | cons first rest ih =>
    obtain ⟨hfirst, hrest⟩ := List.nodup_cons.mp hnodup
    rw [put] at hb
    split at hb
    · rename_i hsame
      have hkey := sameIgnoringCase_iff.mp hsame
      rcases List.mem_cons.mp hb with rfl | hb
      · exact .inr (.inl ⟨first, List.mem_cons_self, hkey.symm, rfl⟩)
      · refine .inl ⟨List.mem_cons_of_mem _ hb, fun heq => hfirst ?_⟩
        rw [hkey, heq]
        exact List.mem_map_of_mem hb
    · rename_i hsame
      have hne : key a ≠ key first := fun heq => hsame (sameIgnoringCase_iff.mpr heq.symm)
      rcases List.mem_cons.mp hb with rfl | hb
      · exact .inl ⟨List.mem_cons_self, hne⟩
      · rcases ih hrest hb with ⟨hold, hkey⟩ | ⟨old, hold, hkey, rfl⟩ | ⟨hnew, rfl⟩
        · exact .inl ⟨List.mem_cons_of_mem _ hold, hkey⟩
        · exact .inr (.inl ⟨old, List.mem_cons_of_mem _ hold, hkey, rfl⟩)
        · exact .inr (.inr ⟨by simpa [hne] using hnew, rfl⟩)

namespace Settles

theorem nil : Settles [] [] where
  keys := rfl
  nodup := List.nodup_nil
  spelling := nofun
  value := nofun

theorem mem_keys (h : Settles settings attributes) {k : String} :
    k ∈ attributes.map key ↔ k ∈ settings.map key := by
  rw [h.keys, List.mem_eraseDups]

/-- An attribute after one more setting has the first spelling and the last value of its name. -/
theorem of_mem_put (h : Settles settings attributes) {a b : Attribute}
    (hb : b ∈ put a.name a.value attributes) :
    (settingsOf b.name (settings ++ [a])).head?.map (·.name) = some b.name ∧
      (settingsOf b.name (settings ++ [a])).getLast?.map (·.value) = some b.value := by
  rcases mem_put h.nodup hb with ⟨hold, hne⟩ | ⟨old, hold, hkey, rfl⟩ | ⟨hnew, rfl⟩
  · rw [settingsOf_concat_ne hne]
    exact ⟨h.spelling b hold, h.value b hold⟩
  · have hspelling := h.spelling old hold
    rw [settingsOf_concat_same (a := ⟨old.name, a.value⟩) hkey]
    refine ⟨?_, by rw [List.getLast?_concat]; rfl⟩
    cases hsettings : settingsOf old.name settings with
    | nil =>
      rw [hsettings] at hspelling
      cases hspelling
    | cons first rest =>
      rw [hsettings] at hspelling
      exact hspelling
  · rw [settingsOf_concat_same rfl, settingsOf_eq_nil fun hmem => hnew (h.mem_keys.mpr hmem)]
    exact ⟨rfl, rfl⟩

/-- One more setting is put among what the others leave. -/
theorem put (h : Settles settings attributes) (a : Attribute) :
    Settles (settings ++ [a]) (Manifest.put a.name a.value attributes) where
  keys := by
    rw [keys_put, List.map_append, List.eraseDups_append, h.keys]
    by_cases hmem : key a ∈ settings.map key
    · rw [if_pos (List.mem_eraseDups.mpr hmem)]
      simp [List.cons_removeAll, hmem]
    · rw [if_neg fun hin => hmem (List.mem_eraseDups.mp hin)]
      simp [List.cons_removeAll, hmem, List.eraseDups_cons]
  nodup := by
    rw [keys_put]
    split
    · exact h.nodup
    · rename_i hnew
      exact List.nodup_append.mpr ⟨h.nodup, by simp, by grind⟩
  spelling := fun b hb => (h.of_mem_put hb).1
  value := fun b hb => (h.of_mem_put hb).2

end Settles

/-- What settings leave, put one after the other. -/
def settle (attributes settings : List Attribute) : List Attribute :=
  settings.foldl (fun attributes a => put a.name a.value attributes) attributes

theorem settles_settle (settings : List Attribute) : Settles settings (settle [] settings) := by
  have hfrom : ∀ {done attributes : List Attribute}, Settles done attributes →
      Settles (done ++ settings) (settle attributes settings) := by
    induction settings with
    | nil =>
      intro done attributes h
      simpa [settle] using h
    | cons a rest ih =>
      intro done attributes h
      simpa [settle] using ih (h.put a)
  exact hfrom Settles.nil

/-- What holds of the names and of the values that are set holds of what they leave. -/
theorem forall_settle {N V : String → Prop} (hsettings : ∀ a ∈ settings, N a.name ∧ V a.value)
    (h : ∀ a ∈ attributes, N a.name ∧ V a.value) :
    ∀ a ∈ settle attributes settings, N a.name ∧ V a.value := by
  induction settings generalizing attributes with
  | nil => exact h
  | cons a rest ih =>
    obtain ⟨hname, hvalue⟩ := hsettings a List.mem_cons_self
    exact ih (fun b hb => hsettings b (List.mem_cons_of_mem a hb)) (forall_put hname hvalue h)

/-- Settings of other names leave what stands before them alone. -/
theorem settle_append {before : List Attribute}
    (h : ∀ a ∈ settings, ∀ x ∈ before, Text.sameIgnoringCase x.name a.name = false)
    (attributes : List Attribute) :
    settle (before ++ attributes) settings = before ++ settle attributes settings := by
  induction settings generalizing attributes with
  | nil => rfl
  | cons a rest ih =>
    simp only [settle, List.foldl_cons]
    rw [put_append (h a List.mem_cons_self)]
    exact ih (fun b hb => h b (List.mem_cons_of_mem a hb)) _

theorem names_prefix_settle (attributes settings : List Attribute) :
    attributes.map (·.name) <+: (settle attributes settings).map (·.name) := by
  induction settings generalizing attributes with
  | nil => exact List.prefix_rfl
  | cons a rest ih => exact (names_prefix_put attributes).trans (ih _)

/-- The last setting of a name counts; without one, what was there. -/
theorem get?_settle (name : String) (attributes settings : List Attribute) :
    get? ⟨settle attributes settings⟩ name =
      ((settingsOf name settings).getLast?.map (·.value)).or (get? ⟨attributes⟩ name) := by
  induction settings generalizing attributes with
  | nil => rfl
  | cons a rest ih =>
    have hrest : get? ⟨settle attributes (a :: rest)⟩ name =
        ((settingsOf name rest).getLast?.map (·.value)).or
          (get? ⟨put a.name a.value attributes⟩ name) := ih _
    rw [hrest]
    cases hsame : Text.sameIgnoringCase a.name name with
    | false =>
      have hother : get? ⟨put a.name a.value attributes⟩ name = get? ⟨attributes⟩ name := by
        rw [get?, find?_put hsame]
        rfl
      simp [settingsOf, hsame, hother]
    | true =>
      have hcons : settingsOf name (a :: rest) = a :: settingsOf name rest := by
        simp [settingsOf, hsame]
      rw [← get?_congr hsame, get?_put, hcons, List.getLast?_cons]
      cases (settingsOf name rest).getLast? <;> rfl

/-! ## 4. Manifests that are made by settings -/

/-- The manifest after a call that sets an attribute; a call that is refused changes nothing. -/
def setOrKeep (m : Manifest) (name value : String) : Manifest :=
  match m.set name value with
  | .ok m' => m'
  | .error _ => m

theorem setOrKeep_cases {P : Manifest → Prop} (hkeep : P m)
    (hset : ∀ m', m.set name value = .ok m' → P m') : P (m.setOrKeep name value) := by
  unfold setOrKeep
  split
  · rename_i m' h
    exact hset m' h
  · exact hkeep

/-- The manifest after calls that set attributes, each of which may be refused. -/
def ofSettings (settings : List Attribute) : Manifest :=
  settings.foldl (fun m a => m.setOrKeep a.name a.value) empty

/-- What the empty manifest satisfies and a setting that is not refused keeps holds after any
settings. -/
theorem ofSettings_invariant {P : Manifest → Prop} (hempty : P empty)
    (hset : ∀ {m m' name value}, P m → m.set name value = .ok m' → P m')
    (settings : List Attribute) : P (ofSettings settings) := by
  have hfrom : ∀ m, P m → P (settings.foldl (fun m a => m.setOrKeep a.name a.value) m) := by
    induction settings with
    | nil => exact fun m hm => hm
    | cons a rest ih =>
      intro m hm
      exact ih _ (setOrKeep_cases hm fun m' h => hset hm h)
  exact hfrom empty hempty

/-- The names and the values of a manifest that is made by settings are valid. -/
theorem ofSettings_valid (settings : List Attribute) :
    ∀ a ∈ (ofSettings settings).attributes, isName a.name = true ∧ isValue a.value = true := by
  apply ofSettings_invariant
    (P := fun m => ∀ a ∈ m.attributes, isName a.name = true ∧ isValue a.value = true)
  · exact nofun
  · intro m m' name value hm h
    obtain ⟨hname, hvalue, rfl⟩ := set_eq_ok_iff.mp h
    exact forall_put (N := fun name => isName name = true) (V := fun value => isValue value = true)
      hname hvalue hm

/-! ## 5. Settings that are refused -/

/-- The settings that are not refused when their turn comes. -/
def acceptedFrom (m : Manifest) : List Attribute → List Attribute
  | [] => []
  | a :: rest =>
    match m.set a.name a.value with
    | .ok next => a :: acceptedFrom next rest
    | .error _ => acceptedFrom m rest

/-- A manifest is what the settings leave that are not refused. -/
theorem foldl_setOrKeep (m : Manifest) (settings : List Attribute) :
    settings.foldl (fun m a => m.setOrKeep a.name a.value) m =
      ⟨settle m.attributes (acceptedFrom m settings)⟩ := by
  induction settings generalizing m with
  | nil => rfl
  | cons a rest ih =>
    rw [List.foldl_cons, ih, acceptedFrom, setOrKeep]
    cases hset : m.set a.name a.value with
    | error e => rfl
    | ok next =>
      obtain ⟨-, -, rfl⟩ := set_eq_ok_iff.mp hset
      rfl

theorem acceptedFrom_append (m : Manifest) (before after : List Attribute) :
    acceptedFrom m (before ++ after) = acceptedFrom m before ++
      acceptedFrom (before.foldl (fun m a => m.setOrKeep a.name a.value) m) after := by
  induction before generalizing m with
  | nil => rfl
  | cons a rest ih =>
    rw [List.cons_append, acceptedFrom, acceptedFrom, List.foldl_cons, setOrKeep]
    cases m.set a.name a.value with
    | error e => exact ih m
    | ok next => exact congrArg (a :: ·) (ih next)

/-- What is accepted after some settings is what the manifest that they have made accepts. -/
theorem acceptedFrom_empty_append (before after : List Attribute) :
    acceptedFrom empty (before ++ after) =
      acceptedFrom empty before ++ acceptedFrom (ofSettings before) after :=
  acceptedFrom_append empty before after

theorem ofSettings_eq (settings : List Attribute) :
    ofSettings settings = ⟨settle [] (acceptedFrom empty settings)⟩ :=
  foldl_setOrKeep empty settings

/-- **A manifest keeps its attributes as an ordered map without regard to case.** After settings of
which any may be refused, there is one attribute for each name, in the order in which the names were
first accepted, with the spelling that was accepted first and the value that was accepted last.
Under any spelling that value is found, and nothing is found under a name that was never accepted.
A setting that is refused changes nothing: without it, the same settings are accepted and leave the
same. -/
theorem ofSettings_settles (settings : List Attribute) :
    Settles (acceptedFrom empty settings) (ofSettings settings).attributes ∧
    (∀ a ∈ (ofSettings settings).attributes, ∀ name, Text.sameIgnoringCase a.name name = true →
      (ofSettings settings).get? name = some a.value) ∧
    (∀ name, (ofSettings settings).get? name = none ↔
      ∀ a ∈ acceptedFrom empty settings, Text.sameIgnoringCase a.name name = false) ∧
    (∀ before a after e, settings = before ++ a :: after →
      (ofSettings before).set a.name a.value = .error e →
      acceptedFrom empty (before ++ after) = acceptedFrom empty settings ∧
      ofSettings (before ++ after) = ofSettings settings) := by
  have hsettles : Settles (acceptedFrom empty settings) (ofSettings settings).attributes := by
    rw [ofSettings_eq]
    exact settles_settle _
  have hget : ∀ name, (ofSettings settings).get? name =
      (settingsOf name (acceptedFrom empty settings)).getLast?.map (·.value) := by
    intro name
    rw [ofSettings_eq, get?_settle]
    exact Option.or_none
  refine ⟨hsettles, fun a ha name hsame => ?_, fun name => ?_, fun before a after e hsplit he => ?_⟩
  · rw [← get?_congr hsame, hget, hsettles.value a ha]
  · simp [hget, settingsOf]
  · have haccepted : acceptedFrom empty (before ++ after) = acceptedFrom empty settings := by
      rw [hsplit, acceptedFrom_empty_append, acceptedFrom_empty_append, acceptedFrom, he]
    exact ⟨haccepted, by rw [ofSettings_eq, ofSettings_eq, haccepted]⟩

/-- Settings of two names in different spellings, of which two have forbidden values and one has a
name that cannot be set. -/
def mixedSettings : List Attribute :=
  [⟨"Class-Path", "a"⟩, ⟨"Class Path", "b"⟩, ⟨"X-Note", "1\n"⟩, ⟨"class-path", "c"⟩,
    ⟨"x-note", "2"⟩, ⟨"CLASS-PATH", "d\r"⟩]

/-- The second name has the spelling of its second setting, since the first is refused. -/
theorem ofSettings_settles_mixed :
    (ofSettings mixedSettings).attributes = [⟨"Class-Path", "c"⟩, ⟨"x-note", "2"⟩] ∧
    (ofSettings mixedSettings).get? "CLASS-path" = some "c" ∧
    (ofSettings mixedSettings).get? "Class Path" = none ∧
    ofSettings (mixedSettings.eraseIdx 1) = ofSettings mixedSettings := by
  have hattributes : (ofSettings mixedSettings).attributes =
      [⟨"Class-Path", "c"⟩, ⟨"x-note", "2"⟩] := by decide +kernel
  obtain ⟨-, hfound, hnone, hrefused⟩ := ofSettings_settles mixedSettings
  refine ⟨hattributes, ?_, (hnone _).mpr (by decide +kernel), ?_⟩
  · exact hfound ⟨"Class-Path", "c"⟩ (by simp [hattributes]) _ (by decide +kernel)
  · exact (hrefused [⟨"Class-Path", "a"⟩] ⟨"Class Path", "b"⟩ _ (.invalidName "Class Path") rfl
      rfl).2

end FatJar.Manifest
