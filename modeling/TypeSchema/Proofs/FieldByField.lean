import TypeSchema.Proofs.Except
import TypeSchema.Proofs.ObjectSchemas

/-!
Objects compile field by field. Where two objects have no field name in common, the object with the
fields of both has the faults of the one and then those of the other. So its properties, its schema
and what it requires are put together from theirs, and no field is affected by the others.
-/
namespace TypeSchema

theorem countNamed_append (name : String) (xs ys : List Field) :
    countNamed name (xs ++ ys) = countNamed name xs + countNamed name ys := by
  simp [countNamed]

theorem countNamed_eq_zero {name : String} {fields : List Field}
    (h : ∀ f ∈ fields, f.name ≠ name) : countNamed name fields = 0 := by
  simpa [countNamed] using h

namespace Descriptor

section
variable {limit depth : Nat} {at_ : Location}

theorem fieldFaultsAt_append (all : List Field) (seen : List String) (xs ys : List Field) :
    fieldFaultsAt limit depth at_ all seen (xs ++ ys) =
      fieldFaultsAt limit depth at_ all seen xs ++
        fieldFaultsAt limit depth at_ all ((xs.map (·.name)).reverse ++ seen) ys := by
  induction xs generalizing seen with
  | nil => rfl
  | cons f xs ih =>
    obtain ⟨name, optional, declarations⟩ := f
    rw [List.cons_append, fieldFaultsAt, fieldFaultsAt, ih, List.append_assoc]
    simp

/-- Of the other fields, only those of the same name matter to what is said of a field. -/
theorem fieldFaultsAt_congr {all all' fields : List Field} {seen seen' : List String}
    (hcount : ∀ f ∈ fields, countNamed f.name all = countNamed f.name all')
    (hseen : ∀ f ∈ fields, f.name ∈ seen ↔ f.name ∈ seen') :
    fieldFaultsAt limit depth at_ all seen fields =
      fieldFaultsAt limit depth at_ all' seen' fields := by
  induction fields generalizing seen seen' with
  | nil => rfl
  | cons f fields ih =>
    obtain ⟨name, optional, declarations⟩ := f
    rw [List.forall_mem_cons] at hcount hseen
    have hrest := @ih (name :: seen) (name :: seen') hcount.2 fun g hg => by
      simp only [List.mem_cons, hseen.2 g hg]
    have hhead : seen.contains name = seen'.contains name := by
      rw [Bool.eq_iff_iff, List.contains_iff_mem, List.contains_iff_mem]
      exact hseen.1
    rw [fieldFaultsAt, fieldFaultsAt, hhead, hcount.1, hrest]

end

end Descriptor

namespace Schema

variable (policy : NullPolicy)

theorem requiredNames_append (a b : Properties) :
    requiredNames (a ++ b) = requiredNames a ++ requiredNames b := by
  simp [requiredNames]

theorem propertySchemas_append (a b : Properties) :
    propertySchemas policy (a ++ b) = propertySchemas policy a ++ propertySchemas policy b := by
  simp [propertySchemas_eq_map]

theorem ofProperties_append {a b : Properties} {sa sb : List (String × Schema)}
    {ra rb : List String} (ha : ofProperties policy a = .object sa ra)
    (hb : ofProperties policy b = .object sb rb) :
    ofProperties policy (a ++ b) = .object (sa ++ sb) (ra ++ rb) := by
  obtain ⟨rfl, rfl⟩ := Schema.object.inj ha
  obtain ⟨rfl, rfl⟩ := Schema.object.inj hb
  rw [ofProperties, propertySchemas_append, requiredNames_append]

end Schema

namespace Shape

def Apart (xs ys : List Field) : Prop := ∀ f ∈ xs, ∀ g ∈ ys, f.name ≠ g.name

variable {limit : Nat} {at_ : Location} {xs ys : List Field}

theorem faults_append (h : Apart xs ys) (name name₁ name₂ : Option String) :
    faults limit at_ ⟨name, xs ++ ys⟩ =
      faults limit at_ ⟨name₁, xs⟩ ++ faults limit at_ ⟨name₂, ys⟩ := by
  have hxs (f : Field) (hf : f ∈ xs) : countNamed f.name ys = 0 :=
    countNamed_eq_zero fun g hg => (h f hf g hg).symm
  have hys (g : Field) (hg : g ∈ ys) : countNamed g.name xs = 0 :=
    countNamed_eq_zero fun f hf => h f hf g hg
  have hnew (g : Field) (hg : g ∈ ys) : g.name ∉ xs.map (·.name) := by
    simpa using fun f hf => h f hf g hg
  unfold faults
  rw [Descriptor.fieldFaultsAt_append]
  congr 1
  · exact Descriptor.fieldFaultsAt_congr (fun f hf => by simp [countNamed_append, hxs f hf])
      fun f _ => Iff.rfl
  · exact Descriptor.fieldFaultsAt_congr (fun g hg => by simp [countNamed_append, hys g hg])
      fun g hg => by simpa using hnew g hg

/-- The fields of the one are compiled first, and those of the other only when they do compile. -/
theorem properties_append (h : Apart xs ys) (name name₁ name₂ : Option String) :
    properties limit at_ ⟨name, xs ++ ys⟩ = (do
      let a ← properties limit at_ ⟨name₁, xs⟩
      let b ← properties limit at_ ⟨name₂, ys⟩
      return a ++ b) := by
  have hlisting : Descriptor.fieldListings (xs ++ ys) =
      Descriptor.fieldListings xs ++ Descriptor.fieldListings ys := by
    simp [Descriptor.fieldListings_eq_map]
  rw [properties_eq_verdict, faults_append h name name₁ name₂]
  simp only [hlisting]
  exact (verdict_bind (properties_eq_verdict limit at_ ⟨name₁, xs⟩) fun _ =>
    verdict_bind_pure (Descriptor.fieldListings xs ++ ·)
      (properties_eq_verdict limit at_ ⟨name₂, ys⟩)).symm

theorem apart_of_properties {name : Option String} {p : Properties}
    (h : properties limit at_ ⟨name, xs ++ ys⟩ = .ok p) : Apart xs ys := by
  have hnodup := (properties_eq_ok_iff.mp h).1.1.nodup
  rw [List.map_append, List.nodup_append] at hnodup
  exact fun f hf g hg => hnodup.2.2 _ (List.mem_map_of_mem hf) _ (List.mem_map_of_mem hg)

theorem exists_of_properties_append {name : Option String} {p : Properties}
    (h : properties limit at_ ⟨name, xs ++ ys⟩ = .ok p) :
    ∃ a b, properties limit at_ ⟨name, xs⟩ = .ok a ∧ properties limit at_ ⟨name, ys⟩ = .ok b ∧
      p = a ++ b := by
  rw [properties_append (apart_of_properties h) name name name] at h
  obtain ⟨a, ha, h⟩ := Except.bind_eq_ok_iff.mp h
  obtain ⟨b, hb, h⟩ := Except.bind_eq_ok_iff.mp h
  exact ⟨a, b, ha, hb, (Except.ok.inj h).symm⟩

/-- Objects compile field by field. Two that have no field name in common make one whose properties,
schema and required names are those of the first and then those of the second, and which fails as
the first does, or else as the second does. So where some fields among others are edited, removed
or added, the others keep their properties, their schemas and what is required of them, in the
order that they have. -/
theorem properties_field_by_field (limit : Nat) (at_ : Location) :
    (∀ s t u : Shape, Apart s.fields t.fields → u.fields = s.fields ++ t.fields →
      (∀ a b, s.properties limit at_ = .ok a → t.properties limit at_ = .ok b →
        u.properties limit at_ = .ok (a ++ b) ∧
        ∀ policy sa ra sb rb, Schema.ofProperties policy a = .object sa ra →
          Schema.ofProperties policy b = .object sb rb →
          Schema.ofProperties policy (a ++ b) = .object (sa ++ sb) (ra ++ rb)) ∧
      (∀ r, s.properties limit at_ = .error r → u.properties limit at_ = .error r) ∧
      ∀ a r, s.properties limit at_ = .ok a → t.properties limit at_ = .error r →
        u.properties limit at_ = .error r) ∧
    ∀ name before old new after p p',
      properties limit at_ ⟨name, before ++ (old ++ after)⟩ = .ok p →
      properties limit at_ ⟨name, before ++ (new ++ after)⟩ = .ok p' →
      ∃ b o n a, properties limit at_ ⟨name, before⟩ = .ok b ∧
        properties limit at_ ⟨name, old⟩ = .ok o ∧ properties limit at_ ⟨name, new⟩ = .ok n ∧
        properties limit at_ ⟨name, after⟩ = .ok a ∧ p = b ++ (o ++ a) ∧ p' = b ++ (n ++ a) ∧
        ∀ policy sb rb sa ra, Schema.ofProperties policy b = .object sb rb →
          Schema.ofProperties policy a = .object sa ra →
          (∃ so ro, Schema.ofProperties policy o = .object so ro ∧
            Schema.ofProperties policy p = .object (sb ++ (so ++ sa)) (rb ++ (ro ++ ra))) ∧
          ∃ sn rn, Schema.ofProperties policy n = .object sn rn ∧
            Schema.ofProperties policy p' = .object (sb ++ (sn ++ sa)) (rb ++ (rn ++ ra)) := by
  refine ⟨?_, fun name before old new after p p' hp hp' => ?_⟩
  · rintro ⟨name₁, xs⟩ ⟨name₂, ys⟩ ⟨name, _⟩ hapart rfl
    have hu := @properties_append limit at_ _ _ hapart name name₁ name₂
    refine ⟨fun a b ha hb => ⟨?_, fun policy _ _ _ _ => Schema.ofProperties_append policy⟩,
      fun r hr => ?_, fun a r ha hr => ?_⟩
    · rw [hu, ha, hb]
      rfl
    · rw [hu, hr]
      rfl
    · rw [hu, ha, hr]
      rfl
  · obtain ⟨b, _, hb, hrest, rfl⟩ := exists_of_properties_append hp
    obtain ⟨o, a, ho, ha, rfl⟩ := exists_of_properties_append hrest
    obtain ⟨b', _, hb', hrest', rfl⟩ := exists_of_properties_append hp'
    obtain ⟨n, a', hn, ha', rfl⟩ := exists_of_properties_append hrest'
    obtain rfl : b = b' := Except.ok.inj (hb.symm.trans hb')
    obtain rfl : a = a' := Except.ok.inj (ha.symm.trans ha')
    refine ⟨b, o, n, a, hb, ho, hn, ha, rfl, rfl, fun policy sb rb sa ra hsb hsa => ?_⟩
    have hmiddle (m : Properties) : ∃ sm rm, Schema.ofProperties policy m = .object sm rm ∧
        Schema.ofProperties policy (b ++ (m ++ a)) =
          .object (sb ++ (sm ++ sa)) (rb ++ (rm ++ ra)) :=
      ⟨_, _, rfl, Schema.ofProperties_append policy hsb (Schema.ofProperties_append policy rfl hsa)⟩
    exact ⟨hmiddle o, hmiddle n⟩

/-- A contact whose mail is first nullable and then optional, between an id and a note. -/
theorem properties_field_by_field_contact :
    let id : Field := ⟨"id", false, [.primitive .number]⟩
    let mail : Field := ⟨"mail", false, [.union [.primitive .string, .null]]⟩
    let mails : Field := ⟨"mail", true, [.array (.primitive .string)]⟩
    let fax : Field := ⟨"fax", false, [.unsupported "Fax"]⟩
    let note : Field := ⟨"note", false, [.wildcard]⟩
    let idProperties : Properties := [("id", ⟨false, [.value .number]⟩)]
    let rest : Properties := [("mail", ⟨false, [.value .string, .null]⟩), ("note", ⟨false, [.any]⟩)]
    properties 1 ⟨"Contact", []⟩ ⟨none, [id, mail, note]⟩ = .ok (idProperties ++ rest) ∧
      Schema.ofProperties .omit (idProperties ++ rest) =
        .object [("id", .types ["number"]), ("mail", .types ["string", "null"]), ("note", .any)]
          ["id", "note"] ∧
      properties 1 ⟨"Contact", []⟩ ⟨none, [id, fax, mail, mail]⟩ =
        .error ⟨⟨"Contact", [.field "fax"]⟩, .unsupportedType "Fax"⟩ ∧
      ∃ b o n a, properties 1 ⟨"Contact", []⟩ ⟨none, [id]⟩ = .ok b ∧
        properties 1 ⟨"Contact", []⟩ ⟨none, [note]⟩ = .ok a ∧
        properties 1 ⟨"Contact", []⟩ ⟨none, [id, mail, note]⟩ = .ok (b ++ (o ++ a)) ∧
        properties 1 ⟨"Contact", []⟩ ⟨none, [id, mails, note]⟩ = .ok (b ++ (n ++ a)) := by
  intro id mail mails fax note idProperties rest
  have h := properties_field_by_field 1 ⟨"Contact", []⟩
  have hwhole := h.1 ⟨some "A", [id]⟩ ⟨some "B", [mail, note]⟩ ⟨none, [id, mail, note]⟩
    (by simp [Apart, id, mail, note]) rfl
  have hbroken := h.1 ⟨none, [id, fax]⟩ ⟨none, [mail, mail]⟩ ⟨none, [id, fax, mail, mail]⟩
    (by simp [Apart, id, fax, mail]) rfl
  obtain ⟨hok, hschema⟩ := hwhole.1 idProperties rest rfl rfl
  obtain ⟨b, o, n, a, hb, -, -, ha, hp, hp', -⟩ :=
    h.2 none [id] [mail] [mails] [note] _ _ hok rfl
  exact ⟨hok, hschema .omit _ _ _ _ rfl rfl, hbroken.2.1 _ rfl, b, o, n, a, hb, ha, hp ▸ hok,
    hp' ▸ rfl⟩

end Shape

end TypeSchema
