import RoomScript.Numeral

/-!
# Names of numbers

Listings name the numbers that stand for models, for flags of the story and for work areas, where
the name is known.
-/

set_option autoImplicit false

namespace RoomScript
namespace Symbols

/-- The models of the first generation. -/
def models : List (UInt8 × String) := [
    (0x00, "Zombie (Scientist)"), (0x01, "Zombie (Nude)"), (0x02, "Zombie (Dog)"),
    (0x03, "Spider (Brown)"), (0x04, "Spider (Grey)"), (0x05, "Crow"), (0x06, "Hunter"),
    (0x07, "Bee"), (0x08, "Tentacle"), (0x09, "Chimera"), (0x0a, "Snake"), (0x0b, "Shark"),
    (0x0c, "Tyran (Grey)"), (0x0d, "Yawn"), (0x0e, "Plant 42 (Roots)"),
    (0x0f, "Plant 42 (Tentacle)"), (0x10, "Tyran (Pink)"), (0x11, "Zombie"),
    (0x12, "Yawn (Injured)"), (0x13, "Web"), (0x14, "Arm"), (0x15, "Arm #2"),
    (0x20, "Chris Redfield"), (0x21, "Jill Valentine"), (0x22, "Barry Burton"),
    (0x23, "Rebecca Chambers"), (0x24, "Albert Wesker"), (0x25, "Kenneth"),
    (0x26, "Character 2 (crow scene)"), (0x27, "Character 3 (underground)"),
    (0x28, "Character 4"), (0x29, "Kenneth (Injured)"), (0x2a, "Barry (Injured)"),
    (0x2b, "Barry (Prisoner?)"), (0x2c, "Rebecca (Prisoner?)"), (0x2d, "Barry (#2)"),
    (0x2e, "Wesker (#2)"), (0x30, "Chris (Special #1)"), (0x31, "Jill (Special #1)"),
    (0x32, "Chris (Special #2)"), (0x33, "Jill (Special #2)")]

/-- The flags of the second generation, by array and bit. -/
def flags : List ((UInt8 × UInt8) × String) := [
    ((0x00, 0x19), "game.difficulty"), ((0x01, 0x00), "game.character"),
    ((0x01, 0x01), "game.scenario"), ((0x01, 0x06), "game.type"),
    ((0x01, 0x1b), "game.letterbox"), ((0x02, 0x07), "room.mutex"),
    ((0x04, 0x02), "room1050.cabinkey_used"), ((0x04, 0x05), "room2010.seen_licker"),
    ((0x04, 0x06), "room2000.first_visit"), ((0x04, 0x12), "room10b0.put_jewel1"),
    ((0x04, 0x13), "room10b0.put_jewel2"), ((0x04, 0x1a), "room1010.already_visited"),
    ((0x04, 0x1b), "room1010.kendo_attacked"), ((0x04, 0x3a), "room3090.ladder_down"),
    ((0x04, 0x48), "room2000.put_medal"), ((0x04, 0x55), "room2040.first_visit"),
    ((0x04, 0x56), "room2040.met_licker"), ((0x04, 0x5b), "room60c0.registered_fingerprint"),
    ((0x04, 0x88), "room7000.electricity_enabled"), ((0x04, 0x8c), "room7000.gates_opened"),
    ((0x04, 0x8e), "room60c0.fingerprint_ok_scenario_a"),
    ((0x04, 0x8f), "room60c0.fingerprint_ok_scenario_b"),
    ((0x04, 0x90), "room7010.opened_sockets_stock"), ((0x04, 0x94), "room1100.ladder_down"),
    ((0x04, 0x99), "room2040.cord_broken"), ((0x04, 0xaf), "room2070.used_specialkey"),
    ((0x05, 0x03), "room1010.kendo_examined"), ((0x05, 0x12), "room1030.enable_brad"),
    ((0x0b, 0x1f), "player_answer"), ((0x1d, 0x02), "room60c0.door_unlocked_scenario_a"),
    ((0x1d, 0x05), "room2080.leon_special1"), ((0x1d, 0x06), "room2080.claire_special"),
    ((0x1d, 0x09), "room2040.cord_on_shutter"), ((0x1d, 0x0a), "room20f0.cord_on_shutter"),
    ((0x1d, 0x0f), "room2080.leon_special2"), ((0x1d, 0x11), "room1030.met_brad")]

/-- The array with one flag for every enemy that was killed. -/
def killedArray : UInt8 := 6

/-- The work areas of the third generation. -/
def workAreas : List (UInt8 × String) := [
    (0x00, "NO_WK"), (0x01, "PL_WK"), (0x02, "SPL_WK"), (0x03, "EM_WK"), (0x04, "OM_WK"),
    (0x06, "ALL_WK"), (0x80, "PL_PARTS_WK"), (0xa0, "SPL_PARTS_WK"), (0xc0, "EM_PARTS_WK"),
    (0xe0, "OM_PARTS_WK")]

/-- The name of a model. -/
def model? (id : UInt8) : Option String := models.lookup id

/-- What a flag stands for. -/
def flag? (array bit : UInt8) : Option String :=
  if array = killedArray then some s!"killed[{Numeral.byte bit}]" else flags.lookup (array, bit)

/-- The name of a work area. -/
def workArea? (id : UInt8) : Option String := workAreas.lookup id

end Symbols
end RoomScript
