/-
FatJar.Proofs.FileTree.Walk — walks through a tree as a relation.

`Walks t links place steps left found` says that the steps lead from `place` to
`found` and leave `left` of the links that may be followed. It holds exactly when
`walk` gives `found`. As a relation it can be cut and put together at any step,
and it stays true in a tree that keeps what was there.

Contents:
1. the relation, and `walk` as its function;
2. walks of several parts;
3. walks in two trees;
4. the last step of a path;
5. resolving a path in two stages: its holder, then its last name;
6. paths that can be followed part by part.
-/
import FatJar.Proofs.FileTree.Place
import FatJar.Proofs.Outcome

namespace FatJar.FileTree

variable {t t' : FileTree} {links left : Nat} {place found h : Place} {name : String}
  {steps : List String} {p : Path} {slash : Bool}

/-! ## 1. The relation -/

/-- A name that is entered, and not the directory itself or the one above. -/
structure IsName (name : String) : Prop where
  ne_dot : name ≠ "."
  ne_dots : name ≠ ".."

/-- The steps lead from one place to another. -/
inductive Walks (t : FileTree) : Nat → Place → List String → Nat → Place → Prop
  | nil {links : Nat} {place : Place} : Walks t links place [] links place
  | here {links left : Nat} {place found : Place} {rest : List String}
      (hplace : t.node? place = some .directory) (hrest : Walks t links place rest left found) :
      Walks t links place ("." :: rest) left found
  | up {links left : Nat} {place found : Place} {rest : List String}
      (hplace : t.node? place = some .directory)
      (hrest : Walks t links place.dropLast rest left found) :
      Walks t links place (".." :: rest) left found
  | follow {links left : Nat} {place found : Place} {name target : String} {rest : List String}
      (hplace : t.node? place = some .directory) (hname : IsName name)
      (hshort : isLong name = false) (hnode : t.node? (place ++ [name]) = some (.link target))
      (hrest : Walks t links (start place ⟨target⟩) (Path.steps ⟨target⟩ ++ rest) left found) :
      Walks t (links + 1) place (name :: rest) left found
  | enter {links left : Nat} {place found : Place} {name : String} {node : Node}
      {rest : List String}
      (hplace : t.node? place = some .directory) (hname : IsName name)
      (hshort : isLong name = false) (hnode : t.node? (place ++ [name]) = some node)
      (hlink : ∀ target, node ≠ .link target)
      (hrest : Walks t links (place ++ [name]) rest left found) :
      Walks t links place (name :: rest) left found

theorem walk_here {rest : List String} (hplace : t.node? place = some .directory) :
    t.walk links place ("." :: rest) = t.walk links place rest := by
  rw [walk, hplace]
  simp

theorem walk_up {rest : List String} (hplace : t.node? place = some .directory) :
    t.walk links place (".." :: rest) = t.walk links place.dropLast rest := by
  rw [walk, hplace]
  simp

theorem walk_follow {target : String} {rest : List String}
    (hplace : t.node? place = some .directory) (hname : IsName name) (hshort : isLong name = false)
    (hnode : t.node? (place ++ [name]) = some (.link target)) :
    t.walk (links + 1) place (name :: rest) =
      t.walk links (start place ⟨target⟩) (Path.steps ⟨target⟩ ++ rest) := by
  rw [walk, hplace]
  simp [hname.ne_dot, hname.ne_dots, hshort, hnode]

theorem walk_enter {node : Node} {rest : List String} (hplace : t.node? place = some .directory)
    (hname : IsName name) (hshort : isLong name = false)
    (hnode : t.node? (place ++ [name]) = some node) (hlink : ∀ target, node ≠ .link target) :
    t.walk links place (name :: rest) = t.walk links (place ++ [name]) rest := by
  rw [walk, hplace]
  cases node with
  | link target => exact absurd rfl (hlink target)
  | file content => simp [hname.ne_dot, hname.ne_dots, hshort, hnode]
  | directory => simp [hname.ne_dot, hname.ne_dots, hshort, hnode]

theorem walk_missing {rest : List String} (hplace : t.node? place = some .directory)
    (hname : IsName name) (hshort : isLong name = false) (hnode : t.node? (place ++ [name]) = none) :
    t.walk links place (name :: rest) = .error .notFound := by
  rw [walk, hplace]
  simp [hname.ne_dot, hname.ne_dots, hshort, hnode]

/-- What the relation says, `walk` computes. -/
theorem Walks.walk_eq_ok (hw : Walks t links place steps left found) :
    t.walk links place steps = .ok found := by
  induction hw with
  | nil => rw [walk]
  | here hplace _ ih => rw [walk_here hplace, ih]
  | up hplace _ ih => rw [walk_up hplace, ih]
  | follow hplace hname hshort hnode _ ih => rw [walk_follow hplace hname hshort hnode, ih]
  | enter hplace hname hshort hnode hlink _ ih =>
    rw [walk_enter hplace hname hshort hnode hlink, ih]

/-- What `walk` computes, the relation says. -/
theorem exists_walks (h : t.walk links place steps = .ok found) :
    ∃ left, Walks t links place steps left found := by
  fun_induction walk t links place steps with
  | case1 links place =>
    cases h
    exact ⟨links, .nil⟩
  | case2 => cases h
  | case3 => cases h
  | case4 => cases h
  | case5 links place name rest hplace hdot ih =>
    obtain ⟨left, hw⟩ := ih h
    rw [beq_iff_eq.mp hdot]
    exact ⟨left, .here hplace hw⟩
  | case6 links place name rest hplace _ hdots ih =>
    obtain ⟨left, hw⟩ := ih h
    rw [beq_iff_eq.mp hdots]
    exact ⟨left, .up hplace hw⟩
  | case7 => cases h
  | case8 => cases h
  | case9 => cases h
  | case10 place name rest hplace hdot hdots hshort target hnode fewer ih =>
    obtain ⟨left, hw⟩ := ih h
    exact ⟨left, .follow hplace ⟨by simpa using hdot, by simpa using hdots⟩
      (by simpa using hshort) hnode hw⟩
  | case11 links place name rest hplace hdot hdots hshort node hlink hnode ih =>
    obtain ⟨left, hw⟩ := ih h
    exact ⟨left, .enter hplace ⟨by simpa using hdot, by simpa using hdots⟩
      (by simpa using hshort) hnode hlink hw⟩

/-- `walk` computes the relation. -/
theorem walk_eq_ok_iff :
    t.walk links place steps = .ok found ↔ ∃ left, Walks t links place steps left found :=
  ⟨exists_walks, fun ⟨_, hw⟩ => hw.walk_eq_ok⟩

/-! ## 2. Walks of several parts -/

theorem Walks.append {more : List String} {links₁ links₂ : Nat} {place₁ place₂ : Place}
    (hfirst : Walks t links place steps links₁ place₁)
    (hsecond : Walks t links₁ place₁ more links₂ place₂) :
    Walks t links place (steps ++ more) links₂ place₂ := by
  induction hfirst with
  | nil => exact hsecond
  | here hplace _ ih => exact .here hplace (ih hsecond)
  | up hplace _ ih => exact .up hplace (ih hsecond)
  | follow hplace hname hshort hnode _ ih =>
    have hrest := ih hsecond
    rw [List.append_assoc] at hrest
    exact .follow hplace hname hshort hnode hrest
  | enter hplace hname hshort hnode hlink _ ih =>
    exact .enter hplace hname hshort hnode hlink (ih hsecond)

/-- A walk stops somewhere after its first steps. -/
theorem Walks.exists_of_append {more all : List String} (hw : Walks t links place all left found)
    (hall : all = steps ++ more) :
    ∃ links₁ place₁, Walks t links place steps links₁ place₁ ∧
      Walks t links₁ place₁ more left found := by
  -- along the walk; a link that is followed puts its own steps before the rest of `steps`
  induction hw generalizing steps with
  | nil =>
    obtain ⟨rfl, rfl⟩ := List.append_eq_nil_iff.mp hall.symm
    exact ⟨_, _, .nil, .nil⟩
  | here hplace hrest ih =>
    rcases List.cons_eq_append_iff.mp hall with ⟨rfl, rfl⟩ | ⟨rest, rfl, rfl⟩
    · exact ⟨_, _, .nil, .here hplace hrest⟩
    · obtain ⟨links₁, place₁, hfirst, hsecond⟩ := ih rfl
      exact ⟨links₁, place₁, .here hplace hfirst, hsecond⟩
  | up hplace hrest ih =>
    rcases List.cons_eq_append_iff.mp hall with ⟨rfl, rfl⟩ | ⟨rest, rfl, rfl⟩
    · exact ⟨_, _, .nil, .up hplace hrest⟩
    · obtain ⟨links₁, place₁, hfirst, hsecond⟩ := ih rfl
      exact ⟨links₁, place₁, .up hplace hfirst, hsecond⟩
  | follow hplace hname hshort hnode hrest ih =>
    rcases List.cons_eq_append_iff.mp hall with ⟨rfl, rfl⟩ | ⟨rest, rfl, rfl⟩
    · exact ⟨_, _, .nil, .follow hplace hname hshort hnode hrest⟩
    · obtain ⟨links₁, place₁, hfirst, hsecond⟩ := ih (List.append_assoc ..).symm
      exact ⟨links₁, place₁, .follow hplace hname hshort hnode hfirst, hsecond⟩
  | enter hplace hname hshort hnode hlink hrest ih =>
    rcases List.cons_eq_append_iff.mp hall with ⟨rfl, rfl⟩ | ⟨rest, rfl, rfl⟩
    · exact ⟨_, _, .nil, .enter hplace hname hshort hnode hlink hrest⟩
    · obtain ⟨links₁, place₁, hfirst, hsecond⟩ := ih rfl
      exact ⟨links₁, place₁, .enter hplace hname hshort hnode hlink hfirst, hsecond⟩

theorem walks_append_iff {more : List String} :
    Walks t links place (steps ++ more) left found ↔
      ∃ links₁ place₁, Walks t links place steps links₁ place₁ ∧
        Walks t links₁ place₁ more left found :=
  ⟨fun hw => hw.exists_of_append rfl, fun ⟨_, _, hfirst, hsecond⟩ => hfirst.append hsecond⟩

theorem Walks.of_dot {rest : List String} (hw : Walks t links place ("." :: rest) left found) :
    t.node? place = some .directory ∧ Walks t links place rest left found := by
  generalize hall : "." :: rest = all at hw
  cases hw with
  | nil => cases hall
  | here hplace hrest =>
    cases hall
    exact ⟨hplace, hrest⟩
  | up => simp at hall
  | follow _ hname => exact absurd (List.cons.inj hall).1.symm hname.ne_dot
  | enter _ hname => exact absurd (List.cons.inj hall).1.symm hname.ne_dot

/-- Steps to the directory itself lead nowhere else. -/
theorem Walks.eq_of_dots {k : Nat} (hw : Walks t links place (List.replicate k ".") left found) :
    left = links ∧ found = place := by
  induction k with
  | zero =>
    cases hw
    exact ⟨rfl, rfl⟩
  | succ k ih => exact ih hw.of_dot.2

theorem walks_append_dots_iff {k : Nat} (hdir : t.node? found = some .directory) :
    Walks t links place (steps ++ List.replicate k ".") left found ↔
      Walks t links place steps left found := by
  constructor
  · intro hw
    obtain ⟨links₁, place₁, hfirst, hdots⟩ := walks_append_iff.mp hw
    obtain ⟨rfl, rfl⟩ := hdots.eq_of_dots
    exact hfirst
  · intro hw
    induction k with
    | zero => simpa using hw
    | succ k ih =>
      rw [List.replicate_succ', ← List.append_assoc]
      exact ih.append (.here hdir .nil)

/-- Without a directory to start from, no step is taken. -/
theorem Walks.eq_of_not_directory (hw : Walks t links place steps left found)
    (hplace : t.node? place ≠ some .directory) : steps = [] ∧ found = place := by
  cases hw with
  | nil => exact ⟨rfl, rfl⟩
  | here hdir => exact absurd hdir hplace
  | up hdir => exact absurd hdir hplace
  | follow hdir => exact absurd hdir hplace
  | enter hdir => exact absurd hdir hplace

/-- A step is taken in a directory. -/
theorem Walks.node?_of_cons (hw : Walks t links place (name :: steps) left found) :
    t.node? place = some .directory := by
  cases hw with
  | here hplace => exact hplace
  | up hplace => exact hplace
  | follow hplace => exact hplace
  | enter hplace => exact hplace

/-- A step by a name is taken in a directory that holds the name. -/
theorem Walks.node?_of_name (hw : Walks t links place [name] left found) (hname : IsName name) :
    t.node? place = some .directory ∧ isLong name = false ∧ t.node? (place ++ [name]) ≠ none := by
  cases hw with
  | here => exact absurd rfl hname.ne_dot
  | up => exact absurd rfl hname.ne_dots
  | follow hplace _ hshort hnode _ => exact ⟨hplace, hshort, by simp [hnode]⟩
  | enter hplace _ hshort hnode _ _ => exact ⟨hplace, hshort, by simp [hnode]⟩

/-! ## 3. Walks in two trees -/

/-- A walk can be taken in every tree that keeps what was there. -/
theorem Walks.keeps (hkeeps : Keeps t t') (hw : Walks t links place steps left found) :
    Walks t' links place steps left found := by
  induction hw with
  | nil => exact .nil
  | here hplace _ ih => exact .here (hkeeps.node? _ _ hplace) ih
  | up hplace _ ih => exact .up (hkeeps.node? _ _ hplace) ih
  | follow hplace hname hshort hnode _ ih =>
    exact .follow (hkeeps.node? _ _ hplace) hname hshort (hkeeps.node? _ _ hnode) ih
  | enter hplace hname hshort hnode hlink _ ih =>
    exact .enter (hkeeps.node? _ _ hplace) hname hshort (hkeeps.node? _ _ hnode) hlink ih

/-- A file put in place of anything but a directory changes a walk only where it replaces a link
that is followed: then no walk gets beyond it. -/
theorem Walks.walk_put_file {content : Bytes} {x : Place}
    (hw : Walks t links place steps left found) (hne : x ≠ []) (hx : t.node? x ≠ some .directory) :
    (t.put x (.file content)).walk links place steps = .ok found ∨
      (∃ target, t.node? x = some (.link target)) ∧
        ∀ other, (t.put x (.file content)).walk links place steps = .ok other → other = x := by
  have hput : ∀ q, (t.put x (.file content)).node? q =
      if q = x then some (.file content) else t.node? q := node?_put hne
  have hdir : ∀ {q : Place}, t.node? q = some .directory →
      (t.put x (.file content)).node? q = some .directory := by
    intro q hq
    rw [hput, if_neg]
    · exact hq
    · rintro rfl
      exact hx hq
  -- at the file itself, only the end of a walk is left
  have hstop : ∀ {links : Nat} {rest : List String} {other : Place},
      (t.put x (.file content)).walk links x rest = .ok other → other = x := by
    intro links rest other hwalk
    cases rest with
    | nil =>
      rw [walk] at hwalk
      cases hwalk
      rfl
    | cons name rest =>
      rw [walk, hput, if_pos rfl] at hwalk
      cases hwalk
  induction hw with
  | nil => exact .inl (by rw [walk])
  | here hplace _ ih =>
    rw [walk_here (hdir hplace)]
    exact ih
  | up hplace _ ih =>
    rw [walk_up (hdir hplace)]
    exact ih
  | @follow links left place found name target rest hplace hname hshort hnode _ ih =>
    by_cases heq : place ++ [name] = x
    · refine .inr ⟨⟨target, heq ▸ hnode⟩, ?_⟩
      intro other hwalk
      have hfile : (t.put x (.file content)).node? (place ++ [name]) = some (.file content) := by
        rw [hput, if_pos heq]
      rw [walk_enter (hdir hplace) hname hshort hfile (by simp), heq] at hwalk
      exact hstop hwalk
    · have hkept : (t.put x (.file content)).node? (place ++ [name]) = some (.link target) := by
        rw [hput, if_neg heq, hnode]
      rw [walk_follow (hdir hplace) hname hshort hkept]
      exact ih
  | @enter links left place found name node rest hplace hname hshort hnode hlink hrest ih =>
    by_cases heq : place ++ [name] = x
    · have hfile : (t.put x (.file content)).node? (place ++ [name]) = some (.file content) := by
        rw [hput, if_pos heq]
      rw [walk_enter (hdir hplace) hname hshort hfile (by simp)]
      -- it replaces a file, behind which there was no further step
      obtain ⟨rfl, rfl⟩ := hrest.eq_of_not_directory (heq ▸ hx)
      exact .inl (by rw [walk])
    · have hkept : (t.put x (.file content)).node? (place ++ [name]) = some node := by
        rw [hput, if_neg heq, hnode]
      rw [walk_enter (hdir hplace) hname hshort hkept hlink]
      exact ih

/-! ## 4. The last step -/

theorem lastStep_eq_name_iff :
    lastStep p = .name name slash ↔
      p.parts.getLast? = some name ∧ IsName name ∧ p.endsInSlash = slash := by
  unfold lastStep
  cases hlast : p.parts.getLast? with
  | none => simp
  | some last =>
    by_cases hdot : last = "."
    · subst hdot
      simp only [beq_self_eq_true, if_true, Option.some.injEq]
      constructor
      · intro h
        cases h
      · rintro ⟨rfl, hname, -⟩
        exact absurd rfl hname.ne_dot
    · by_cases hdots : last = ".."
      · subst hdots
        simp only [beq_self_eq_true, if_true, Option.some.injEq]
        constructor
        · intro h
          simp at h
        · rintro ⟨rfl, hname, -⟩
          exact absurd rfl hname.ne_dots
      · simp only [beq_iff_eq, hdot, hdots, if_false, LastStep.name.injEq, Option.some.injEq]
        constructor
        · rintro ⟨rfl, rfl⟩
          exact ⟨rfl, ⟨hdot, hdots⟩, rfl⟩
        · rintro ⟨rfl, -, rfl⟩
          exact ⟨rfl, rfl⟩

theorem lastStep_eq_up_iff : lastStep p = .up ↔ p.parts.getLast? = some ".." := by
  unfold lastStep
  cases hlast : p.parts.getLast? with
  | none => simp
  | some last =>
    by_cases hdot : last = "."
    · simp [hdot]
    · by_cases hdots : last = ".." <;> simp [hdot, hdots]

theorem parts_eq_of_lastStep (hlast : lastStep p = .name name slash) :
    p.parts = p.parts.dropLast ++ [name] := by
  obtain ⟨hlast, -, -⟩ := lastStep_eq_name_iff.mp hlast
  obtain ⟨before, hparts⟩ := List.getLast?_eq_some_iff.mp hlast
  rw [hparts, List.dropLast_concat]

/-! ## 5. Resolving in two stages -/

theorem checkPath_eq_ok_iff :
    checkPath p = .ok () ↔
      p.hasZero = false ∧ p.text ≠ "" ∧ p.text.utf8ByteSize ≤ maxPath := by
  unfold checkPath
  by_cases hzero : p.hasZero = true
  · simp [hzero]
  · by_cases htext : p.text = ""
    · simp [hzero, htext]
    · by_cases hlong : maxPath < p.text.utf8ByteSize
      · simp [hzero, htext, hlong]
      · simp [hzero, htext, hlong, Nat.le_of_not_lt hlong]

theorem resolve_eq_ok_iff :
    t.resolve p = .ok found ↔
      checkPath p = .ok () ∧
        ∃ left, Walks t maxLinks (start t.workingDirectory p) p.steps left found := by
  rw [resolve, Outcome.bind_eq_ok]
  simp only [walk_eq_ok_iff]
  constructor
  · rintro ⟨⟨⟩, hcheck, hw⟩
    exact ⟨hcheck, hw⟩
  · rintro ⟨hcheck, hw⟩
    exact ⟨(), hcheck, hw⟩

theorem holder_eq_ok_iff :
    t.holder links place p = .ok h ↔
      checkPath p = .ok () ∧ (∃ left, Walks t links (start place p) p.parts.dropLast left h) ∧
        t.node? h = some .directory := by
  rw [holder, Outcome.bind_eq_ok]
  constructor
  · rintro ⟨⟨⟩, hcheck, hrest⟩
    obtain ⟨found, hwalk, hdir⟩ := Outcome.bind_eq_ok.mp hrest
    split at hdir
    · rename_i hnode
      cases hdir
      exact ⟨hcheck, walk_eq_ok_iff.mp hwalk, by simpa using hnode⟩
    · cases hdir
  · rintro ⟨hcheck, hwalk, hdir⟩
    refine ⟨(), hcheck, ?_⟩
    rw [walk_eq_ok_iff.mpr hwalk]
    simp [bind, Except.bind, hdir]

/-- A path that leads somewhere can be walked without the `.` that a slash at its end asks for. -/
theorem exists_walks_parts (hresolve : t.resolve p = .ok found) :
    checkPath p = .ok () ∧
      ∃ left found, Walks t maxLinks (start t.workingDirectory p) p.parts left found := by
  obtain ⟨hcheck, left, hw⟩ := resolve_eq_ok_iff.mp hresolve
  refine ⟨hcheck, ?_⟩
  rw [Path.steps] at hw
  split at hw
  · obtain ⟨links₁, place₁, hfirst, -⟩ := walks_append_iff.mp hw
    exact ⟨links₁, place₁, hfirst⟩
  · exact ⟨left, found, hw⟩

/-- A path that leads somewhere has a holder, unless it has no last step. -/
theorem exists_holder_of_parts (hresolve : t.resolve p = .ok found) {before : List String}
    (hparts : p.parts = before ++ [name]) :
    ∃ h, t.holder maxLinks t.workingDirectory p = .ok h := by
  obtain ⟨hcheck, left, place, hw⟩ := exists_walks_parts hresolve
  rw [hparts] at hw
  obtain ⟨links₁, h, hfirst, hstep⟩ := walks_append_iff.mp hw
  refine ⟨h, holder_eq_ok_iff.mpr ⟨hcheck, ⟨links₁, ?_⟩, hstep.node?_of_cons⟩⟩
  rw [hparts, List.dropLast_concat]
  exact hfirst

/-- A path with a last name leads through its holder, in which the name is. -/
theorem exists_holder_of_resolve (hlast : lastStep p = .name name slash)
    (hresolve : t.resolve p = .ok found) :
    ∃ h, t.holder maxLinks t.workingDirectory p = .ok h ∧ isLong name = false ∧
      t.node? (h ++ [name]) ≠ none := by
  obtain ⟨-, hname, -⟩ := lastStep_eq_name_iff.mp hlast
  obtain ⟨hcheck, left, place, hw⟩ := exists_walks_parts hresolve
  rw [parts_eq_of_lastStep hlast] at hw
  obtain ⟨links₁, h, hfirst, hstep⟩ := walks_append_iff.mp hw
  obtain ⟨hdir, hshort, hnode⟩ := hstep.node?_of_name hname
  exact ⟨h, holder_eq_ok_iff.mpr ⟨hcheck, ⟨links₁, hfirst⟩, hdir⟩, hshort, hnode⟩

/-- A path with a last name leads to what stands under the name in its holder. -/
theorem resolve_of_holder {node : Node} (hlast : lastStep p = .name name slash)
    (hholder : t.holder maxLinks t.workingDirectory p = .ok h) (hshort : isLong name = false)
    (hnode : t.node? (h ++ [name]) = some node) (hlink : ∀ target, node ≠ .link target)
    (hslash : slash = true → node = .directory) : t.resolve p = .ok (h ++ [name]) := by
  obtain ⟨hcheck, ⟨left, hw⟩, hdir⟩ := holder_eq_ok_iff.mp hholder
  obtain ⟨-, hname, hends⟩ := lastStep_eq_name_iff.mp hlast
  have hparts : Walks t maxLinks (start t.workingDirectory p) p.parts left (h ++ [name]) := by
    rw [parts_eq_of_lastStep hlast]
    exact hw.append (.enter hdir hname hshort hnode hlink .nil)
  refine resolve_eq_ok_iff.mpr ⟨hcheck, left, ?_⟩
  rw [Path.steps]
  split
  · rename_i hends'
    have hnode' : t.node? (h ++ [name]) = some .directory := by
      rw [hnode, hslash (hends.symm.trans hends')]
    exact hparts.append (.here hnode' .nil)
  · exact hparts

theorem resolve_keeps (hkeeps : Keeps t t') (h : t.resolve p = .ok found) :
    t'.resolve p = .ok found := by
  obtain ⟨hcheck, left, hw⟩ := resolve_eq_ok_iff.mp h
  refine resolve_eq_ok_iff.mpr ⟨hcheck, left, ?_⟩
  rw [hkeeps.workingDirectory]
  exact hw.keeps hkeeps

theorem holder_keeps (hkeeps : Keeps t t')
    (hholder : t.holder maxLinks t.workingDirectory p = .ok h) :
    t'.holder maxLinks t'.workingDirectory p = .ok h := by
  obtain ⟨hcheck, ⟨left, hw⟩, hdir⟩ := holder_eq_ok_iff.mp hholder
  refine holder_eq_ok_iff.mpr ⟨hcheck, ⟨left, ?_⟩, hkeeps.node? _ _ hdir⟩
  rw [hkeeps.workingDirectory]
  exact hw.keeps hkeeps

/-- A path leads to a directory exactly when it resolves to one. -/
theorem isDirectory_iff :
    t.isDirectory p = true ↔
      ∃ found, t.resolve p = .ok found ∧ t.node? found = some .directory := by
  unfold isDirectory
  cases hresolve : t.resolve p with
  | error e => simp
  | ok found => simp

theorem pathExists_iff : t.pathExists p = true ↔ ∃ found, t.resolve p = .ok found := by
  unfold pathExists
  cases hresolve : t.resolve p with
  | error e => simp
  | ok found => simp

/-! ## 6. Paths part by part -/

/-- The path leads from the working directory through these parts. -/
structure ReadsAs (p : Path) (parts : List String) : Prop where
  check : checkPath p = .ok ()
  relative : p.isAbsolute = false
  noSlash : p.endsInSlash = false
  parts_eq : p.parts = parts

theorem ReadsAs.resolve_eq {parts : List String} (h : ReadsAs p parts) :
    t.resolve p = t.walk maxLinks t.workingDirectory parts := by
  rw [resolve, h.check, Path.steps, h.noSlash, h.parts_eq, start, h.relative]
  rfl

theorem ReadsAs.resolve_of_walks {parts : List String} (h : ReadsAs p parts)
    (hw : Walks t maxLinks t.workingDirectory parts left found) : t.resolve p = .ok found := by
  rw [h.resolve_eq]
  exact hw.walk_eq_ok

theorem ReadsAs.holder_eq {parts : List String} (h : ReadsAs p parts) :
    t.holder maxLinks t.workingDirectory p =
      (t.walk maxLinks t.workingDirectory parts.dropLast >>= fun found =>
        if t.node? found == some .directory then .ok found else .error .notDirectory) := by
  rw [holder, h.check, h.parts_eq, start, h.relative]
  rfl

theorem ReadsAs.holder_of_walks {parts : List String} (h : ReadsAs p parts)
    (hw : Walks t maxLinks t.workingDirectory parts.dropLast left found)
    (hdir : t.node? found = some .directory) :
    t.holder maxLinks t.workingDirectory p = .ok found := by
  rw [h.holder_eq, hw.walk_eq_ok]
  simp [bind, Except.bind, hdir]

end FatJar.FileTree
