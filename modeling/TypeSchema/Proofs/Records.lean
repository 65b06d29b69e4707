import TypeSchema.Proofs.Documents
import TypeSchema.Proofs.Readers

/-!
How a record may be written, and that it is read whichever way it is written: as an object with its
keys in any order and others among them, or as an array of its fields in order.
-/
namespace TypeSchema

structure Slot where
  name : String
  /-- What may stand for it. -/
  spelled : Json → Prop
  /-- Whether it may be left out. -/
  omissible : Prop

/-- Entries that have each slot once, unless it is left out. -/
structure SpelledByKey (slots : List Slot) (entries : List (String × Json)) : Prop where
  distinct : (Keyed.keys entries).Nodup
  spelled : ∀ slot ∈ slots, ∀ v, (slot.name, v) ∈ entries → slot.spelled v
  omitted : ∀ slot ∈ slots, slot.name ∉ Keyed.keys entries → slot.omissible

/-- Items that are the slots in order; slots at the end may be left out. -/
inductive SpelledByPosition : List Slot → List Json → Prop where
  | ended {slots : List Slot} : (∀ slot ∈ slots, slot.omissible) → SpelledByPosition slots []
  | next {slot : Slot} {slots : List Slot} {v : Json} {vs : List Json} : slot.spelled v →
    SpelledByPosition slots vs → SpelledByPosition (slot :: slots) (v :: vs)

inductive SpellsRecord (slots : List Slot) : Json → Prop where
  | byKey {entries : List (String × Json)} : SpelledByKey slots entries →
    SpellsRecord slots (.object entries)
  | byPosition {items : List Json} : SpelledByPosition slots items →
    SpellsRecord slots (.array items)

theorem SpelledByPosition.length_le {slots : List Slot} {items : List Json}
    (h : SpelledByPosition slots items) : items.length ≤ slots.length := by
  induction h with
  | ended _ => exact Nat.zero_le _
  | next _ _ ih => exact Nat.succ_le_succ ih

theorem SpelledByPosition.omissible {slots : List Slot} {items : List Json}
    (h : SpelledByPosition slots items) : ∀ slot ∈ slots.drop items.length, slot.omissible := by
  induction h with
  | ended homissible => exact homissible
  | next _ _ ih => exact ih

namespace Reading.Layout

variable {σ : Type}

/-- A state can be filled key by key, in any order and more than once. -/
structure Fills (fill : String → σ → σ) : Prop where
  again : ∀ key state, fill key (fill key state) = fill key state
  swap : ∀ key key' state, fill key (fill key' state) = fill key' (fill key state)

def Enters (step : String → Spot → Document → σ → Read σ) (spot : Spot) (fill : String → σ → σ)
    (slot : Slot) : Prop :=
  ∀ v state, slot.spelled v → step slot.name spot v.toDocument state = .ok (fill slot.name state)

theorem Takes.enters {β : Type} {step : String → Spot → Document → σ → Read σ} {spot : Spot}
    {slot : Slot} {inner : Document → Read β} {enter : σ → β → σ} {fill : String → σ → σ} {b : β}
    (h : Takes step spot slot.name inner enter)
    (hread : ∀ v, slot.spelled v → inner v.toDocument = .ok b)
    (hfill : ∀ state, enter state b = fill slot.name state) : Enters step spot fill slot := by
  intro v state hv
  rw [h, hread v hv]
  exact congrArg Except.ok (hfill state)

theorem Fills.stays {fill : String → σ → σ} (h : Fills fill) {key : String} (key' : String)
    {state : σ} (hstate : fill key state = state) :
    fill key (fill key' state) = fill key' state := by
  rw [h.swap, hstate]

/-- A layout with these slots, in which none that has to be there may be left out. -/
structure HasSlots (layout : Layout) (slots : List Slot) : Prop where
  names : layout.names = slots.map (·.name)
  required : ∀ slot ∈ slots, slot.omissible → (slot.name, true) ∉ layout.fields

variable {layout : Layout} {slots : List Slot} {place : Place}
  {step : String → Spot → Document → σ → Read σ} {fill : String → σ → σ}

theorem readEntries_of_spelled (hfill : Fills fill) (hslots : layout.HasSlots slots)
    (henters : ∀ slot ∈ slots, Enters step ⟨.buffered, place⟩ fill slot)
    {entries : List (String × Json)} (hdistinct : (Keyed.keys entries).Nodup)
    (hspelled : ∀ slot ∈ slots, ∀ v, (slot.name, v) ∈ entries → slot.spelled v)
    {seen : List String} (hseen : ∀ key ∈ Keyed.keys entries, key ∉ seen) (state : σ) :
    ∃ seen' state', layout.readEntries step ⟨.buffered, place⟩ (Json.toEntries entries) seen state =
        .ok (seen', state') ∧
      (∀ key ∈ layout.names, key ∈ Keyed.keys entries → key ∈ seen' ∧ fill key state' = state') ∧
      ∀ key, key ∉ Keyed.keys entries →
        (key ∈ seen → key ∈ seen') ∧ (fill key state = state → fill key state' = state') := by
  induction entries generalizing seen state with
  | nil => exact ⟨seen, state, rfl, by simp [Keyed.keys], fun _ _ => ⟨id, id⟩⟩
  | cons e rest ih =>
    obtain ⟨key, v⟩ := e
    obtain ⟨hkey, hrest⟩ : key ∉ Keyed.keys rest ∧ (Keyed.keys rest).Nodup :=
      List.nodup_cons.mp hdistinct
    have hmem {key' : String} : key' ∈ Keyed.keys ((key, v) :: rest) ↔
        key' = key ∨ key' ∈ Keyed.keys rest := List.mem_cons
    have hspelledRest (slot : Slot) (hslot : slot ∈ slots) (w : Json)
        (hw : (slot.name, w) ∈ rest) : slot.spelled w :=
      hspelled slot hslot w (List.mem_cons_of_mem _ hw)
    by_cases hknown : key ∈ layout.names
    · obtain ⟨slot, hslot, rfl⟩ := List.mem_map.mp (hslots.names ▸ hknown)
      have hstep := henters slot hslot v state (hspelled slot hslot v (List.mem_cons_self ..))
      have hfresh (key : String) (hin : key ∈ Keyed.keys rest) : key ∉ slot.name :: seen := by
        have hnew := hseen key (hmem.mpr (.inr hin))
        have hne : key ≠ slot.name := fun heq => hkey (heq ▸ hin)
        simp [hne, hnew]
      obtain ⟨seen', state', hread, hwritten, hkept⟩ :=
        ih hrest hspelledRest hfresh (fill slot.name state)
      refine ⟨seen', state', ?_, fun key hname h => ?_, fun key h => ?_⟩
      · rw [Json.toEntries, readEntries_of_known hknown (hseen _ (hmem.mpr (.inl rfl)))]
        exact Except.bind_eq_ok_iff.mpr ⟨_, hstep, hread⟩
      · rcases hmem.mp h with rfl | h
        · have hslot := hkept _ hkey
          exact ⟨hslot.1 (List.mem_cons_self ..), hslot.2 (hfill.again _ _)⟩
        · exact hwritten key hname h
      · have h := hkept key (not_or.mp (mt hmem.mpr h)).2
        exact ⟨fun hin => h.1 (List.mem_cons_of_mem _ hin), fun hst => h.2 (hfill.stays _ hst)⟩
    · obtain ⟨seen', state', hread, hwritten, hkept⟩ := ih hrest hspelledRest
        (fun key hin => hseen key (hmem.mpr (.inr hin))) state
      refine ⟨seen', state', ?_, fun key hname h => ?_, fun key h => ?_⟩
      · rw [Json.toEntries, readEntries_of_unknown hknown (by simp), hread]
      · rcases hmem.mp h with rfl | h
        · exact absurd hname hknown
        · exact hwritten key hname h
      · exact hkept key (not_or.mp (mt hmem.mpr h)).2

theorem readFields_of_spelled (hfill : Fills fill) {items : List Json}
    (h : SpelledByPosition slots items)
    (henters : ∀ slot ∈ slots, Enters step ⟨.buffered, place⟩ fill slot) (i : Nat) {state : σ}
    (hstate : ∀ slot ∈ slots, slot.omissible → fill slot.name state = state) :
    ∃ state', readFields step ⟨.buffered, place⟩ i (slots.map (·.name)) (Json.toDocuments items)
        state = .ok state' ∧
      (∀ slot ∈ slots, fill slot.name state' = state') ∧
      ∀ key, fill key state = state → fill key state' = state' := by
  induction h generalizing i state with
  | @ended slots homissible =>
    refine ⟨state, ?_, fun slot hslot => hstate slot hslot (homissible slot hslot), fun _ => id⟩
    cases slots <;> rfl
  | @next slot slots v vs hv hvs ih =>
    have hstep := henters slot (List.mem_cons_self ..) v state hv
    obtain ⟨state', hread, hwritten, hkept⟩ := ih
      (fun other hother => henters other (List.mem_cons_of_mem _ hother)) (i + 1)
      (fun other hother homit =>
        hfill.stays slot.name (hstate other (List.mem_cons_of_mem _ hother) homit))
    refine ⟨state', Except.bind_eq_ok_iff.mpr ⟨_, hstep, hread⟩, fun other hother => ?_,
      fun key hst => hkept key (hfill.stays _ hst)⟩
    rcases List.mem_cons.mp hother with rfl | hother
    · exact hkept _ (hfill.again _ _)
    · exact hwritten other hother

theorem HasSlots.exists_slot (hslots : layout.HasSlots slots) {name : String}
    (h : (name, true) ∈ layout.fields) : ∃ slot ∈ slots, slot.name = name ∧ ¬ slot.omissible := by
  have hname : name ∈ slots.map (·.name) := hslots.names ▸ List.mem_map_of_mem h
  obtain ⟨slot, hslot, rfl⟩ := List.mem_map.mp hname
  exact ⟨slot, hslot, rfl, fun homissible => hslots.required slot hslot homissible h⟩

theorem missing?_eq_none (hslots : layout.HasSlots slots) {seen : List String}
    (hseen : ∀ slot ∈ slots, slot.name ∉ seen → slot.omissible) : layout.missing? seen = none := by
  rw [missing?, Option.map_eq_none_iff, List.find?_eq_none]
  rintro ⟨name, required⟩ hfield hmissing
  obtain ⟨rfl, hname⟩ : required = true ∧ name ∉ seen := by simpa using hmissing
  obtain ⟨slot, hslot, rfl, hneeded⟩ := hslots.exists_slot hfield
  exact hneeded (hseen slot hslot hname)

theorem checkLength_of_spelled (hslots : layout.HasSlots slots) {items : List Json}
    (h : SpelledByPosition slots items) (spot : Spot) :
    layout.checkLength spot (Json.toDocuments items).length true = .ok () := by
  have hsame : layout.fields.length = slots.length := by
    simpa [names] using congrArg List.length hslots.names
  have hsize : ¬ layout.fields.length < items.length := by
    have := h.length_le
    omega
  have hrequired : layout.required? items.length = none := by
    rw [required?, Option.map_eq_none_iff, List.findIdx?_eq_none_iff]
    rintro ⟨name, required⟩ hfield
    have hname : name ∈ (slots.drop items.length).map (·.name) := by
      rw [List.map_drop, ← hslots.names, names, ← List.map_drop]
      exact List.mem_map_of_mem hfield
    obtain ⟨slot, hslot, rfl⟩ := List.mem_map.mp hname
    cases required with
    | false => rfl
    | true =>
      exact absurd (List.mem_of_mem_drop hfield)
        (hslots.required slot (List.mem_of_mem_drop hslot) (h.omissible slot hslot))
  rw [Json.toDocuments_eq_map, List.length_map, checkLength, if_neg hsize, hrequired]
  rfl

/-- A record is read as what its slots are filled with, in whichever form it is written. -/
theorem read_of_spells (hfill : Fills fill) (hslots : layout.HasSlots slots)
    (henters : ∀ slot ∈ slots, Enters step ⟨.buffered, place⟩ fill slot) {init target : σ}
    (hinit : ∀ slot ∈ slots, slot.omissible → fill slot.name init = init)
    (htarget : ∀ state, (∀ slot ∈ slots, fill slot.name state = state) → state = target) {w : Json}
    (h : SpellsRecord slots w) :
    layout.read step init ⟨.buffered, place⟩ w.toDocument = .ok target := by
  cases h with
  | @byKey entries h =>
    obtain ⟨seen, state, hread, hwritten, hkept⟩ := readEntries_of_spelled hfill hslots henters
      h.distinct h.spelled (fun _ _ => List.not_mem_nil) init
    have hknown (slot : Slot) (hslot : slot ∈ slots) : slot.name ∈ layout.names :=
      hslots.names ▸ List.mem_map_of_mem hslot
    have hmissing : layout.missing? seen = none := missing?_eq_none hslots fun slot hslot hseen =>
      h.omitted slot hslot fun hkey => hseen (hwritten _ (hknown slot hslot) hkey).1
    have hstate : state = target := htarget state fun slot hslot => by
      by_cases hkey : slot.name ∈ Keyed.keys entries
      · exact (hwritten _ (hknown slot hslot) hkey).2
      · exact (hkept _ hkey).2 (hinit slot hslot (h.omitted slot hslot hkey))
    rw [Json.toDocument, read, Except.bind_eq_ok_iff]
    refine ⟨_, hread, ?_⟩
    simp only [hmissing, hstate]
    rfl
  | @byPosition items h =>
    obtain ⟨state, hread, hfilled, -⟩ := readFields_of_spelled hfill h henters 0 hinit
    have hlength := checkLength_of_spelled hslots h ⟨.buffered, place⟩
    rw [Json.toDocument, read, Except.bind_eq_ok_iff]
    exact ⟨state, hslots.names ▸ hread,
      Except.bind_eq_ok_iff.mpr ⟨(), hlength, congrArg Except.ok (htarget state hfilled)⟩⟩

end Reading.Layout

end TypeSchema
