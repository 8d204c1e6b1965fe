/-
FatJar.Proofs.Toml.Document — tables of single settings are read back.

A setting is a key with what is written for its value and what that is read as
(`Setting`). A table is written as a header and its settings, one to a line. Its
lines are read one by one (`ReadAs`), and taken up into the document they fill the
table that the header has opened (`ofLines_table`).

Contents:
1. settings;
2. lines;
3. the table of some lines;
4. whole texts.
-/
import FatJar.Proofs.Toml.Value
import FatJar.Toml.Document

namespace FatJar.Toml

variable {rest text : List Char} {item : Item} {lines : List Line} {key name : String}

/-! ## 1. Settings -/

/-- What is written for an item, and read as it up to the end of the line. -/
structure Shows (text : List Char) (item : Item) : Prop where
  start : ∃ c more, text = c :: more ∧ isSpace c = false
  value : ∀ rest, value? (depthLimit - 1) (text ++ '\n' :: rest) = some (item, '\n' :: rest)

theorem shows_printText (s : String) : Shows (printText s) (.string s) where
  start := by
    obtain ⟨c, more, htext, rfl | rfl⟩ := printText_eq_cons s
    · exact ⟨_, more, htext, rfl⟩
    · exact ⟨_, more, htext, rfl⟩
  value rest := value?_printText _ s (by simp [AfterText])

theorem shows_printArray (texts : List String) :
    Shows (printArray texts) (.array (texts.map .string)) where
  start := by
    match texts with
    | [] => exact ⟨_, _, rfl, rfl⟩
    | [s] => exact ⟨_, _, rfl, rfl⟩
    | first :: second :: texts => exact ⟨'[', _, rfl, rfl⟩
  value rest := value?_printArray _ texts

theorem shows_toString {n : Nat} (hn : n ≤ maxInteger) :
    Shows (toString n).toList (.integer n) where
  start := by
    obtain ⟨c, cs, hcs, hc, -⟩ := toDigits_eq_cons n
    have hspace : c ≠ ' ' := ne_of_class hc rfl
    have htab : c ≠ '\t' := ne_of_class hc rfl
    exact ⟨c, cs, by simp [hcs], by simp [isSpace, hspace, htab]⟩
  value rest := value?_toString _ hn

/-- A key with what is written for its value and what that is read as. -/
structure Setting where
  key : String
  text : List Char
  item : Item
  shows : Shows text item

namespace Setting

/-- The setting as it is written. -/
def print (s : Setting) : List Char :=
  printPair s.key s.text

/-- The line of the setting. -/
def line (s : Setting) : Line :=
  .keyValue [s.key] s.item

/-- The setting in its table. -/
def pair (s : Setting) : String × Item :=
  (s.key, s.item)

end Setting

/-! ## 2. Lines -/

/-- The characters are read as these lines, if fuel is left after one step for each. -/
def ReadAs (cs : List Char) (lines : List Line) : Prop :=
  ∀ fuel, cs.length < fuel → lines? fuel cs = some lines

theorem readAs_nil : ReadAs [] [] := by
  intro fuel hfuel
  obtain ⟨fuel, rfl⟩ : ∃ more, fuel = more + 1 := ⟨fuel - 1, by omega⟩
  rfl

theorem ReadAs.blank (h : ReadAs rest lines) : ReadAs ('\n' :: rest) lines := by
  intro fuel hfuel
  obtain ⟨fuel, rfl⟩ : ∃ more, fuel = more + 1 := ⟨fuel - 1, by omega⟩
  have hrest := h fuel (by simpa using hfuel)
  simpa [lines?, skipSpaces, isSpace] using hrest

theorem endLine_feed (rest : List Char) : endLine ('\n' :: rest) = some rest := by
  simp [endLine, skipSpaces, isSpace]

theorem header?_printKey (name : String) (rest : List Char) :
    header? (printKey name ++ ']' :: '\n' :: rest) = some ([name], rest) := by
  have hskip : skipSpaces (']' :: '\n' :: rest) = ']' :: '\n' :: rest := skipSpaces_cons rfl
  have hkey : key? (printKey name ++ ']' :: '\n' :: rest) =
      some ([name], ']' :: '\n' :: rest) := by
    rw [key?_printKey name (by rintro c ⟨⟩; rfl) (by simp [hskip]), hskip]
  simp [header?, hkey, expect?, endLine_feed]

theorem ReadAs.header (name : String) (h : ReadAs rest lines) :
    ReadAs (printHeader name ++ rest) (.header [name] :: lines) := by
  intro fuel hfuel
  obtain ⟨fuel, rfl⟩ : ∃ more, fuel = more + 1 := ⟨fuel - 1, by omega⟩
  have htext : printHeader name ++ rest = '[' :: (printKey name ++ ']' :: '\n' :: rest) := by
    simp [printHeader]
  have hrest := h fuel (by
    simp only [htext, List.length_cons, List.length_append] at hfuel
    omega)
  have hskip : skipSpaces ('[' :: (printKey name ++ ']' :: '\n' :: rest)) =
      '[' :: (printKey name ++ ']' :: '\n' :: rest) := skipSpaces_cons rfl
  -- the name does not start with the second bracket of an array of tables
  have hbracket : ∀ more, printKey name ++ ']' :: '\n' :: rest ≠ '[' :: more := by
    intro more
    obtain ⟨c, cs, hkey, hc⟩ := printKey_eq_cons name
    rw [hkey]
    intro heq
    exact ne_of_class hc rfl (List.cons.inj heq).1
  simp [htext, lines?, hskip, header?_printKey, hrest]

theorem keyLine?_print (s : Setting) (rest : List Char) :
    keyLine? (s.print ++ rest) = some (([s.key], s.item), rest) := by
  have hprint :
      s.print ++ rest = printKey s.key ++ ' ' :: '=' :: ' ' :: (s.text ++ '\n' :: rest) := by
    simp [Setting.print, printPair]
  have hequals : skipSpaces (' ' :: '=' :: ' ' :: (s.text ++ '\n' :: rest)) =
      '=' :: ' ' :: (s.text ++ '\n' :: rest) := by
    simp [skipSpaces, isSpace]
  have hkey : key? (s.print ++ rest) = some ([s.key], '=' :: ' ' :: (s.text ++ '\n' :: rest)) := by
    rw [hprint, key?_printKey s.key (by rintro c ⟨⟩; rfl) (by simp [hequals]), hequals]
  have htext : skipSpaces (' ' :: (s.text ++ '\n' :: rest)) = s.text ++ '\n' :: rest := by
    obtain ⟨c, more, htext, hc⟩ := s.shows.start
    rw [htext]
    exact skipSpaces_cons hc
  simp [keyLine?, keyValue?, hkey, expect?, htext, s.shows.value, endLine_feed]

theorem ReadAs.setting (s : Setting) (h : ReadAs rest lines) :
    ReadAs (s.print ++ rest) (s.line :: lines) := by
  intro fuel hfuel
  obtain ⟨fuel, rfl⟩ : ∃ more, fuel = more + 1 := ⟨fuel - 1, by omega⟩
  have hprint : 1 ≤ s.print.length := by
    simp only [Setting.print, printPair, List.length_append, List.length_singleton]
    omega
  have hrest := h fuel (by
    rw [List.length_append] at hfuel
    omega)
  have hline := keyLine?_print s rest
  have hskip : skipSpaces (s.print ++ rest) = s.print ++ rest := by
    simp only [Setting.print, printPair, List.append_assoc, skipSpaces_printKey]
  -- the key starts neither a blank line nor a comment nor a header
  obtain ⟨c, more, hkey, hc⟩ := printKey_eq_cons s.key
  have hfeed : c ≠ '\n' := ne_of_class hc rfl
  have hreturn : c ≠ '\r' := ne_of_class hc rfl
  have hcomment : c ≠ '#' := ne_of_class hc rfl
  have hbracket : c ≠ '[' := ne_of_class hc rfl
  obtain ⟨tail, htail⟩ : ∃ tail, s.print ++ rest = c :: tail := by
    simp [Setting.print, printPair, hkey]
  rw [htail] at hskip hline ⊢
  simp [lines?, hskip, hfeed, hreturn, hcomment, hbracket, hline, hrest, Setting.line]

theorem ReadAs.settings (settings : List Setting) (h : ReadAs rest lines) :
    ReadAs (settings.flatMap Setting.print ++ rest) (settings.map Setting.line ++ lines) := by
  induction settings with
  | nil => exact h
  | cons s settings ih =>
    rw [List.flatMap_cons, List.append_assoc]
    exact ih.setting s

/-! ## 3. The table of some lines -/

section Pairs

variable {pairs : Pairs} (h : key ∉ pairs.map (·.1))

include h

theorem lookup?_eq_none : lookup? key pairs = none := by
  rw [lookup?, Option.map_eq_none_iff, List.find?_eq_none]
  intro pair hpair heq
  exact h (List.mem_map.mpr ⟨pair, hpair, beq_iff_eq.mp heq⟩)

theorem lookup?_concat : lookup? key (pairs ++ [(key, item)]) = some item := by
  have hnone : pairs.find? (fun pair => pair.1 == key) = none := by
    simpa [lookup?] using lookup?_eq_none h
  simp [lookup?, List.find?_append, hnone]

theorem update_concat {old : Item} :
    update key item (pairs ++ [(key, old)]) = pairs ++ [(key, item)] := by
  have hsame : ∀ pair ∈ pairs, (if pair.1 == key then (key, item) else pair) = pair := by
    intro pair hpair
    rw [if_neg]
    intro heq
    exact h (List.mem_map.mpr ⟨pair, hpair, beq_iff_eq.mp heq⟩)
  rw [update, List.map_append, List.map_congr_left hsame]
  simp

end Pairs

namespace Document

variable {d : Document} {pairs : Pairs}

/-- The document with a table of that name at its end, which is open. -/
def withTable (d : Document) (name : String) (pairs : Pairs) : Document :=
  ⟨d.pairs ++ [(name, .table .header pairs)], [name]⟩

section Table

variable (hname : name ∉ d.pairs.map (·.1))

include hname

theorem add_header : d.add (.header [name]) = some (d.withTable name []) := by
  simp [add, splitKey?, changeAt, openLast, lookup?_eq_none hname, withTable]

theorem add_setting (s : Setting) (hs : s.key ∉ pairs.map (·.1)) :
    (d.withTable name pairs).add s.line = some (d.withTable name (pairs ++ [s.pair])) := by
  simp [add, Setting.line, withTable, changeAt, lookup?_concat hname, setKey, splitKey?, setDotted,
    setNew, lookup?_eq_none hs, update_concat hname, Setting.pair]

/-- The settings of a table are taken up one after the other. -/
theorem ofLines_settings {settings : List Setting}
    (hkeys : ((pairs ++ settings.map Setting.pair).map (·.1)).Nodup) :
    (d.withTable name pairs).ofLines (settings.map Setting.line ++ lines) =
      (d.withTable name (pairs ++ settings.map Setting.pair)).ofLines lines := by
  induction settings generalizing pairs with
  | nil => simp
  | cons s settings ih =>
    have hs : s.key ∉ pairs.map (·.1) := by
      rw [List.map_append] at hkeys
      intro hmem
      exact (List.nodup_append.mp hkeys).2.2 s.key hmem s.key (by simp [Setting.pair]) rfl
    have hmore : pairs ++ (s :: settings).map Setting.pair =
        pairs ++ [s.pair] ++ settings.map Setting.pair := by
      simp
    rw [List.map_cons, List.cons_append, ofLines, add_setting hname s hs]
    rw [hmore] at hkeys ⊢
    exact ih hkeys

end Table

end Document

/-! ## 4. Whole texts -/

/-- A table with its settings, whose keys are distinct. -/
structure Table where
  name : String
  settings : List Setting
  keys : (settings.map Setting.key).Nodup

namespace Table

/-- The table as it is written. -/
def print (table : Table) : List Char :=
  printHeader table.name ++ table.settings.flatMap Setting.print

/-- The lines of the table. -/
def toLines (table : Table) : List Line :=
  .header [table.name] :: table.settings.map Setting.line

/-- The table in a document. -/
def pair (table : Table) : String × Item :=
  (table.name, .table .header (table.settings.map Setting.pair))

/-- Tables as they are written, with empty lines between them. -/
def printAll : List Table → List Char
  | [] => []
  | [table] => table.print
  | table :: others => table.print ++ '\n' :: printAll others

end Table

theorem ReadAs.table (table : Table) (h : ReadAs rest lines) :
    ReadAs (table.print ++ rest) (table.toLines ++ lines) := by
  rw [Table.print, List.append_assoc]
  exact (h.settings table.settings).header table.name

theorem readAs_printAll (tables : List Table) :
    ReadAs (Table.printAll tables) (tables.flatMap Table.toLines) := by
  match tables with
  | [] => exact readAs_nil
  | [table] => simpa [Table.printAll] using readAs_nil.table table
  | table :: next :: others => exact (readAs_printAll (next :: others)).blank.table table

/-- The lines of a table put it at the end of the document. -/
theorem Document.ofLines_table {d : Document} {table : Table}
    (hname : table.name ∉ d.pairs.map (·.1)) :
    d.ofLines (table.toLines ++ lines) =
      (d.withTable table.name (table.settings.map Setting.pair)).ofLines lines := by
  have hkeys : ((table.settings.map Setting.pair).map (·.1)).Nodup := by
    simpa [Function.comp_def, Setting.pair] using table.keys
  rw [Table.toLines, List.cons_append, ofLines, add_header hname]
  exact ofLines_settings hname hkeys

theorem Document.ofLines_tables {d : Document} {tables : List Table}
    (hnames : (d.pairs.map (·.1) ++ tables.map Table.name).Nodup) :
    ∃ current, d.ofLines (tables.flatMap Table.toLines) =
      some ⟨d.pairs ++ tables.map Table.pair, current⟩ := by
  induction tables generalizing d with
  | nil => exact ⟨d.current, by simp [ofLines]⟩
  | cons table tables ih =>
    have hname : table.name ∉ d.pairs.map (·.1) := by
      intro hmem
      exact (List.nodup_append.mp hnames).2.2 _ hmem _ List.mem_cons_self rfl
    rw [List.flatMap_cons, ofLines_table hname]
    obtain ⟨current, hlines⟩ := ih
      (d := d.withTable table.name (table.settings.map Setting.pair))
      (by simpa [withTable] using hnames)
    exact ⟨current, by simpa [withTable, Table.pair] using hlines⟩

/-- A text of tables with distinct names is read as these tables. -/
theorem parse?_printAll {tables : List Table} (hnames : (tables.map Table.name).Nodup) :
    parse? (String.ofList (Table.printAll tables)) = some (tables.map Table.pair) := by
  have hmark : skipMark (Table.printAll tables) = Table.printAll tables := by
    match tables with
    | [] => rfl
    | [table] => simp [Table.printAll, Table.print, printHeader, skipMark]
    | table :: next :: others => simp [Table.printAll, Table.print, printHeader, skipMark]
  have hlines := readAs_printAll tables _ (Nat.lt_succ_self _)
  obtain ⟨current, hdocument⟩ := Document.ofLines_tables (d := ⟨[], []⟩) hnames
  simp [parse?, hmark, hlines, hdocument]

end FatJar.Toml
