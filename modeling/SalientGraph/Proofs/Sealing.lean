import SalientGraph.Engine.Catalog
import SalientGraph.Proofs.Json.Trees

/-!
# Payloads that are sealed and opened

What is sealed for a tenant is opened again to the same properties, under a cipher that
opens what it seals and never seals to nothing, provided that the written properties are
read as what was written. That is up to the reader of documents, and the reader sets a
bound to how deep they nest.
-/

namespace SalientGraph

namespace Cipher

/-- Puts a byte in front of whatever is sealed, so that it is never empty. -/
def marking : Cipher where
  encrypt _ _ bytes := .ok (0 :: bytes)
  decrypt _ bytes := .ok bytes.tail

theorem opens_marking : marking.Opens := by
  rintro _ _ _ _ ⟨⟩
  rfl

theorem neverEmpty_marking : marking.NeverEmpty := by
  rintro _ _ _ _ ⟨⟩
  exact List.cons_ne_nil _ _

end Cipher

namespace Properties

/-- What is written of the properties is read as these properties. -/
def Legible (p : Properties) : Prop :=
  ∃ members, Json.parse? (Json.ofProperties p).render = some (.object members) ∧
    Json.properties members = p

/-- How many arrays and objects there are at most inside one another, the properties themselves
included. -/
def levels (p : Properties) : Nat :=
  (Json.ofProperties p).levels

/-- The members of objects are in strict order, and numbers are legible. -/
def Sound (p : Properties) : Prop :=
  Json.SoundMembers p.toList

theorem parse?_render {p : Properties} (h : p.Sound) :
    Json.parse? (Json.ofProperties p).render =
      if p.levels ≤ Json.Document.maxLevels then some (Json.ofProperties p) else none :=
  Json.parse?_render ⟨Std.ExtTreeMap.ordered_keys_toList, h⟩

/-- Properties are legible up to a depth. -/
theorem legible_of_levels_le {p : Properties} (h : p.Sound)
    (hlevels : p.levels ≤ Json.Document.maxLevels) : p.Legible := by
  refine ⟨p.toList, ?_, Json.properties_toList p⟩
  rw [p.parse?_render h]
  exact if_pos hlevels

end Properties

namespace Engine

variable {e : Engine} {tenant : Tenant}

/-- The payload is what the properties have been sealed to. -/
def Seals (e : Engine) (tenant : Tenant) (properties : Properties) (payload : Sealed) : Prop :=
  ∃ draw, e.cipher.encrypt (e.nonce draw) tenant
    (Bytes.ofString (Json.ofProperties properties).render) = .ok payload.bytes

namespace Seals

variable (hopens : e.cipher.Opens) (hnonempty : e.cipher.NeverEmpty) {properties : Properties}
  {payload : Sealed} (h : e.Seals tenant properties payload)
include hopens hnonempty h

/-- What has been sealed is deciphered and read. -/
theorem openPayload_eq : e.openPayload tenant payload =
    match Json.parse? (Json.ofProperties properties).render with
    | some (.object members) => .ok (Json.properties members)
    | _ => .error .malformed := by
  obtain ⟨draw, hsealed⟩ := h
  have hbytes : payload.bytes.isEmpty = false :=
    List.isEmpty_eq_false_iff.2 (hnonempty _ _ _ _ hsealed)
  have hplain := hopens _ _ _ _ hsealed
  unfold openPayload
  rw [hbytes, hplain]
  show (match (Bytes.toString? (Bytes.ofString _)).bind Json.parse? with
    | some (.object members) => _
    | _ => _) = _
  rw [Bytes.toString?_ofString]
  rfl

/-- What has been sealed is opened to the same properties if and only if it is read as these. -/
theorem openPayload_eq_ok_iff :
    e.openPayload tenant payload = .ok properties ↔ properties.Legible := by
  rw [h.openPayload_eq hopens hnonempty]
  constructor
  · intro hopen
    split at hopen
    · rename_i members hread
      cases hopen
      exact ⟨members, hread, rfl⟩
    · contradiction
  · rintro ⟨members, hread, hsame⟩
    rw [hread]
    exact congrArg Except.ok hsame

/-- What has been sealed is opened to the same properties, unless they nest too deep. -/
theorem openPayload_of_sound (hsound : properties.Sound) :
    e.openPayload tenant payload =
      if properties.levels ≤ Json.Document.maxLevels then .ok properties else .error .malformed := by
  rw [h.openPayload_eq hopens hnonempty, properties.parse?_render hsound]
  by_cases hlevels : properties.levels ≤ Json.Document.maxLevels
  · rw [if_pos hlevels, if_pos hlevels]
    exact congrArg Except.ok (Json.properties_toList properties)
  · rw [if_neg hlevels, if_neg hlevels]

end Seals

end Engine
end SalientGraph
