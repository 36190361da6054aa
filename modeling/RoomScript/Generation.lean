/-!
# Game generations and the sections of a room

A room file opens with a header whose shape depends on the generation of the game: where the table
of section offsets starts, how many entries it has, and which entry means what.  `Generation` has
these facts, `SectionKind` names the sections that the rest of the library knows about.

`Generation.sectionIndex?` and `Generation.sectionKind?` are inverse to each other, which
`sectionKind?_eq_some_iff` states for all indices at once.
-/

set_option autoImplicit false

namespace RoomScript

/-- The generation of the game that a room belongs to. -/
inductive Generation where
  | re1
  | re2
  | re3
  deriving DecidableEq, Repr

/-- The sections of a room with a known meaning. -/
inductive SectionKind where
  | cameraSwitches
  | collision
  | cameras
  | initScript
  | roomScript
  | events
  | text
  | textLanguage2
  | animations
  deriving DecidableEq, Repr

namespace SectionKind

/-- Every kind, in the order in which an index is looked up. -/
def all : List SectionKind :=
  [cameraSwitches, collision, cameras, initScript, roomScript, events, text, textLanguage2,
    animations]

theorem mem_all (k : SectionKind) : k ∈ all := by cases k <;> decide

/-- The name of the kind in printed listings. -/
def label : SectionKind → String
  | cameraSwitches => "camera switches"
  | collision => "collision"
  | cameras => "cameras"
  | initScript => "init script"
  | roomScript => "room script"
  | events => "events"
  | text => "text"
  | textLanguage2 => "text (language 2)"
  | animations => "animations"

/-- The name of the kind in JSON reports. -/
def identifier : SectionKind → String
  | cameraSwitches => "camera_switches"
  | collision => "collision"
  | cameras => "cameras"
  | initScript => "init_script"
  | roomScript => "room_script"
  | events => "events"
  | text => "text"
  | textLanguage2 => "text_language2"
  | animations => "animations"

end SectionKind

namespace Generation

/-- The name of the generation, as messages and the command line spell it. -/
def name : Generation → String
  | re1 => "re1"
  | re2 => "re2"
  | re3 => "re3"

/-- The generation called `s`. -/
def ofName? : String → Option Generation
  | "re1" => some re1
  | "re2" => some re2
  | "re3" => some re3
  | _ => none

/-! ## The header -/

/-- The number of offsets in the section table. -/
def sectionCount : Generation → Nat
  | re1 => 19
  | re2 | re3 => 21

/-- The position of the section table in the file. -/
def tableStart : Generation → Nat
  | re1 => 72
  | re2 | re3 => 8

/-- The size of the header: everything up to the end of the section table. -/
def headerLength (g : Generation) : Nat := g.tableStart + 4 * g.sectionCount

/-! ## What the sections mean -/

/-- The place of a kind in the section table, if rooms of this generation have it. -/
def sectionIndex? : Generation → SectionKind → Option Nat
  | re1, .cameraSwitches => some 0
  | re1, .collision => some 1
  | re1, .initScript => some 6
  | re1, .roomScript => some 7
  | re1, .events => some 8
  | re1, .text => some 11
  | re1, .cameras | re1, .textLanguage2 | re1, .animations => none
  | re2, .collision | re3, .collision => some 6
  | re2, .cameras | re3, .cameras => some 7
  | re2, .cameraSwitches | re3, .cameraSwitches => some 8
  | re2, .text | re3, .text => some 13
  | re2, .textLanguage2 | re3, .textLanguage2 => some 14
  | re2, .initScript | re3, .initScript => some 16
  | re2, .roomScript | re3, .roomScript => some 17
  | re2, .animations | re3, .animations => some 18
  | re2, .events | re3, .events => none

/-- The kind found at a place of the section table. -/
def sectionKind? (g : Generation) (index : Nat) : Option SectionKind :=
  SectionKind.all.find? fun kind ↦ g.sectionIndex? kind = some index

theorem sectionIndex?_inj {g : Generation} {k l : SectionKind} {i : Nat}
    (hk : g.sectionIndex? k = some i) (hl : g.sectionIndex? l = some i) : k = l := by
  cases g <;> cases k <;> cases l <;> simp_all [sectionIndex?] <;> omega

/-- Looking an index up is the inverse of placing a kind. -/
theorem sectionKind?_eq_some_iff {g : Generation} {i : Nat} {k : SectionKind} :
    g.sectionKind? i = some k ↔ g.sectionIndex? k = some i := by
  constructor
  · intro h
    simpa using List.find?_some h
  · intro h
    cases hf : g.sectionKind? i with
    | none =>
      have := List.find?_eq_none.1 hf k (SectionKind.mem_all k)
      simp [h] at this
    | some l =>
      have hl : g.sectionIndex? l = some i := by simpa using List.find?_some hf
      rw [sectionIndex?_inj hl h]

/-- The section with the messages of a language: the first generation has one language, the others
have two. -/
def textSection? (g : Generation) : Nat → Option Nat
  | 0 => g.sectionIndex? .text
  | 1 => g.sectionIndex? .textLanguage2
  | _ => none

/-- The number of languages that messages come in. -/
def languageCount : Generation → Nat
  | re1 => 1
  | re2 | re3 => 2

/-- A language that is not among them has no messages. -/
theorem textSection?_eq_none {g : Generation} {language : Nat} (h : g.languageCount ≤ language) :
    g.textSection? language = none := by
  match g, language with
  | re1, 1 | re1, _ + 2 | re2, _ + 2 | re3, _ + 2 => rfl
  | re1, 0 | re2, 0 | re2, 1 | re3, 0 | re3, 1 => simp [languageCount] at h

end Generation
end RoomScript
