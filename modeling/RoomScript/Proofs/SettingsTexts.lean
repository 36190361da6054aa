import RoomScript.Settings.File
import RoomScript.Proofs.JsonPrinting

/-!
# Settings survive their file

Settings that are printed and read again are the same settings.  More than that, a file need not be
a printed one.  Any JSON record will do that has some of the settings, each of them once, in any
order and among any other members (`Settings.Holds`), laid out in any way (`Json.Laid`).  What it
has is taken from it, and what it does not have is as it is by default (`Settings.ofFile_of_holds`).
-/

set_option autoImplicit false

namespace RoomScript
namespace Settings

/-! ## Settings one by one -/

/-- What stands for a setting in a file. -/
def value (c : Settings) : Key → Json.Tree
  | .maxInstructions => .number (some c.maxInstructions)
  | .evaluateConditions => .bool c.evaluateConditions
  | .languages => .number (some c.languages)
  | .showBytes => .bool c.showBytes

/-- The settings `s`, but for some settings that are taken from `c`. -/
def takeFrom (s c : Settings) (keys : List Key) : Settings where
  maxInstructions := if .maxInstructions ∈ keys then c.maxInstructions else s.maxInstructions
  evaluateConditions :=
    if .evaluateConditions ∈ keys then c.evaluateConditions else s.evaluateConditions
  languages := if .languages ∈ keys then c.languages else s.languages
  showBytes := if .showBytes ∈ keys then c.showBytes else s.showBytes

variable {c s : Settings} {keys : List Key} {members : Json.Tree.Members}

theorem takeFrom_nil (s c : Settings) : s.takeFrom c [] = s := by
  simp [takeFrom]

theorem takeFrom_all (s c : Settings) : s.takeFrom c Key.all = c := by
  simp [takeFrom, Key.all]

theorem takeFrom_takeFrom (s c : Settings) (key : Key) (keys : List Key) :
    (s.takeFrom c [key]).takeFrom c keys = s.takeFrom c (key :: keys) := by
  cases key <;> simp only [takeFrom, List.mem_cons, List.not_mem_nil, or_false, reduceCtorEq,
    false_or, true_or, if_true, if_false, ite_self]

theorem assign?_value (s c : Settings) (key : Key) :
    s.assign? key (c.value key) = some (s.takeFrom c [key]) := by
  cases key <;> rfl

namespace Key

theorem ofName?_name (key : Key) : ofName? key.name.toList = some key := by
  cases key <;> decide

theorem ofName?_eq_none {name : List Char} (h : ∀ key : Key, key.name.toList ≠ name) :
    ofName? name = none := by
  rw [ofName?, List.find?_eq_none]
  intro key _
  simpa using h key

end Key

/-! ## Records of settings -/

/-- The members of a record hold the settings `keys` of `c`, in this order.  All other members have
names that are those of no setting. -/
inductive Holds (c : Settings) : List Key → Json.Tree.Members → Prop
  | nil : Holds c [] []
  | setting {key : Key} {keys : List Key} {name : List Json.StringPart}
      {members : Json.Tree.Members} (hname : Json.Unescapes name key.name.toList)
      (h : Holds c keys members) : Holds c (key :: keys) ((name, c.value key) :: members)
  | other {keys : List Key} {name : List Json.StringPart} {chars : List Char} {value : Json.Tree}
      {members : Json.Tree.Members} (hname : Json.Unescapes name chars)
      (hother : ∀ key : Key, key.name.toList ≠ chars) (h : Holds c keys members) :
      Holds c keys ((name, value) :: members)

/-- **A record is read member by member**, for any settings to start with, if none of its settings
was seen before. -/
theorem Holds.readMembers? (h : c.Holds keys members) (hnodup : keys.Nodup) (seen : List Key)
    (hseen : ∀ key ∈ keys, key ∉ seen) (s : Settings) :
    readMembers? seen s members = some (s.takeFrom c keys) := by
  induction h generalizing seen s with
  | nil => rw [takeFrom_nil, Settings.readMembers?]
  | @setting key keys name members hname _ ih =>
    obtain ⟨hkey, hnodup⟩ := List.nodup_cons.1 hnodup
    have hrest : ∀ key' ∈ keys, key' ∉ key :: seen := by
      intro key' hkey' hmem
      rcases List.mem_cons.1 hmem with rfl | hmem
      · exact hkey hkey'
      · exact hseen key' (List.mem_cons_of_mem _ hkey') hmem
    have hih := ih hnodup (key :: seen) hrest (s.takeFrom c [key])
    rw [takeFrom_takeFrom] at hih
    simp only [Settings.readMembers?, Json.characters?_of_unescapes hname, Option.bind_eq_bind,
      Option.bind_some, Key.ofName?_name, if_neg (hseen key List.mem_cons_self), assign?_value]
    exact hih
  | @other keys name chars value members hname hother _ ih =>
    simp only [Settings.readMembers?, Json.characters?_of_unescapes hname, Option.bind_eq_bind,
      Option.bind_some, Key.ofName?_eq_none hother]
    exact ih hnodup seen hseen s

/-- A file with a text in it is read as the text. -/
theorem ofFile_text (text : String) :
    ofFile text.toUTF8.data = (ofText? text.toList).elim (.error .notSettings) .ok := by
  have htext : String.fromUTF8? (ByteArray.mk text.toUTF8.data) = some text :=
    dif_pos text.isValidUTF8
  rw [ofFile, htext]
  dsimp only
  cases ofText? text.toList with
  | none => rfl
  | some s => rfl

theorem ofFile_of_holds (h : c.Holds keys members) (hnodup : keys.Nodup) {text : String}
    (htext : Json.Laid (Json.Tree.record members).lexemes text.toList) :
    ofFile text.toUTF8.data = .ok (takeFrom {} c keys) := by
  have hread := h.readMembers? hnodup [] (fun _ _ ↦ List.not_mem_nil) {}
  have hsettings : ofText? text.toList = some (takeFrom {} c keys) := by
    rw [ofText?, Json.Tree.ofText?_of_laid htext]
    exact hread
  rw [ofFile_text, hsettings]
  rfl

/-! ## Printed settings -/

theorem holds_treesOfMembers (c : Settings) :
    ∃ members, c.toJson.toTree = .record members ∧ c.Holds Key.all members := by
  have hword (n : UInt64) : (Json.nat n.toNat).toTree = .number (some n) :=
    congrArg Json.Tree.number (Json.NumberText.word?_ofInt n)
  have hname (key : Key) := Json.unescapes_partsOf key.name
  refine ⟨Key.all.map fun key ↦ (Json.partsOf key.name, c.value key), ?_, ?_⟩
  · simp only [toJson, Json.toTree, Json.treesOfMembers, hword]
    rfl
  · exact .setting (hname _) (.setting (hname _) (.setting (hname _) (.setting (hname _) .nil)))

/-- **Settings survive their file.**  Whatever the settings `c` are, printing them and reading what
was printed gives `c`.  And any text of any record that holds some settings of `c`, each of them
once, in any order and among any members with other names, gives these settings of `c`, and the
defaults for the others. -/
theorem survives_file (c : Settings) :
    ofFile c.toJson.pretty.toUTF8.data = .ok c ∧
      ∀ (keys : List Key) (members : Json.Tree.Members) (text : String),
        keys.Nodup → c.Holds keys members →
        Json.Laid (Json.Tree.record members).lexemes text.toList →
        ofFile text.toUTF8.data = .ok (takeFrom {} c keys) := by
  refine ⟨?_, fun keys members text hnodup hholds htext ↦ ofFile_of_holds hholds hnodup htext⟩
  obtain ⟨members, htree, hholds⟩ := c.holds_treesOfMembers
  have htext := Json.laid_prettyAt 0 c.toJson
  rw [htree] at htext
  have hread := ofFile_of_holds hholds (by decide) htext
  rwa [takeFrom_all] at hread

/-- Two settings, the last one first, behind a member with another name and with blanks of all
sorts. -/
theorem survives_file_otherMember :
    let c : Settings := { maxInstructions := 7, showBytes := true }
    let keys : List Key := [.showBytes, .maxInstructions]
    let members : Json.Tree.Members :=
      [([.unit 97], .list [.number none, .null]), (Json.partsOf "show_bytes", .bool true),
        (Json.partsOf "max_instructions", .number (some 7))]
    let text : String :=
      "\x7b \"\\u0061\":\t[-1.5,null] ,\n\"show_bytes\":true,\"max_instructions\": 7\x7d"
    keys.Nodup ∧ c.Holds keys members ∧ Json.Laid (Json.Tree.record members).lexemes text.toList ∧
      ofFile text.toUTF8.data = .ok c := by
  intro c keys members text
  have hnodup : keys.Nodup := by decide
  have hother (key : Key) : key.name.toList ≠ ['a'] := by cases key <;> decide
  have hholds : c.Holds keys members :=
    .other (.unit (by decide) .nil) hother
      (.setting (Json.unescapes_partsOf "show_bytes")
        (.setting (Json.unescapes_partsOf "max_instructions") .nil))
  have hname : Json.Lexeme.WrittenAs (.string [.unit 97]) "\"\\u0061\"".toList :=
    .string (.cons (.numbered (Json.isHexDigit_digitChar (by decide : 0 < 16))
      (Json.isHexDigit_digitChar (by decide : 0 < 16))
      (Json.isHexDigit_digitChar (by decide : 6 < 16))
      (Json.isHexDigit_digitChar (by decide : 1 < 16))) .nil)
  let number : Json.NumberText :=
    { negative := true
      whole := ⟨['1'], by decide, List.forall_mem_singleton.2 rfl⟩
      leadingZero := by decide
      fraction? := some ⟨['5'], by decide, List.forall_mem_singleton.2 rfl⟩ }
  have hlist : Json.Laid (Json.Tree.list [.number none, .null]).lexemes "[-1.5,null]".toList :=
    .lexeme .openList (.lexeme (.number number) (.lexeme .comma (.lexeme .null
      (.lexeme .closeList .nil))))
  have hsettings : Json.Laid
      ((Json.Tree.record (members.drop 1)).lexemes.drop 1)
      "\"show_bytes\":true,\"max_instructions\": 7\x7d".toList :=
    .lexeme (Json.writtenAs_quote "show_bytes") (.lexeme .colon (.lexeme (.bool true)
      (.lexeme .comma (.lexeme (Json.writtenAs_quote "max_instructions") (.lexeme .colon
        (.blank (by decide) (.lexeme (.number (.ofInt 7)) (.lexeme .closeRecord .nil))))))))
  have hspace : ' ' ∈ [' ', '\n', '\t', '\r'] := by decide
  have htab : '\t' ∈ [' ', '\n', '\t', '\r'] := by decide
  have hline : '\n' ∈ [' ', '\n', '\t', '\r'] := by decide
  have htext : Json.Laid (Json.Tree.record members).lexemes text.toList := by
    dsimp only [text]
    exact .lexeme .openRecord (.blank hspace (.lexeme hname (.lexeme .colon (.blank htab
      (hlist.append (.blank hspace (.lexeme .comma (.blank hline hsettings))))))))
  exact ⟨hnodup, hholds, htext, (survives_file c).2 keys members text hnodup hholds htext⟩

end Settings
end RoomScript
