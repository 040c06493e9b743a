import SalientGraph.Proofs.Rereading

/-!
# Accepted entries that cannot be read

Whoever puts an entry is told of it as soon as it has been sealed, but nobody looks
whether what was sealed can be opened. An entry is read afterwards as it was given just
if its properties are legible. If they nest deeper than a document may, the entry has been
accepted and whoever reads it fails.
-/

namespace SalientGraph

namespace Json

/-- Lists inside one another, so many of them. -/
def nested : Nat → Json
  | 0 => .null
  | n + 1 => .array [nested n]

theorem levels_nested (n : Nat) : (nested n).levels = n := by
  induction n with
  | zero => rfl
  | succ n ih =>
      show max (nested n).levels 0 + 1 = n + 1
      rw [ih, Nat.max_zero]

theorem sound_nested (n : Nat) : (nested n).Sound := by
  induction n with
  | zero => exact trivial
  | succ n ih => exact ⟨ih, trivial⟩

end Json

namespace Engine

variable (e : Engine)

/-- Alone on any store that can come about, under any cipher that opens what it seals and never
seals to nothing, an entry that is put is read right afterwards as the call gave it back if and only
if its properties are legible. With legible numbers they are, unless they nest too deep, and then
whoever reads the entry fails. -/
theorem accepted_entries_are_read_if_legible (hopens : e.cipher.Opens)
    (hnonempty : e.cipher.NeverEmpty) (w : World) (hstore : w.store.Reached) (o : Occasion)
    (given : Entry) (hcall : o.call.created? = some given) (answer : Call.Answer)
    (hanswer : (e.serve o w).1.outcome = .ok answer) (o' : Occasion) (htenant : o'.tenant = o.tenant)
    (hreader : o'.call = given.reader) (hsound : ∀ served r, o'.conditions.failure served r = none)
    (hlasts : o'.scope.Outlasts (e.perform o'.tenant o'.call) ((e.serve o w).2.arrive o')) :
    (∃ time, answer = (given.scoredAt (o.wall time)).answer) ∧
      ((e.serve o' (e.serve o w).2).1.outcome = .ok answer ↔ given.properties.Legible) ∧
      (given.properties.Sound → (e.serve o' (e.serve o w).2).1.outcome =
        if given.properties.levels ≤ Json.Document.maxLevels then .ok answer
        else .error .malformed) := by
  obtain ⟨hrun, hkeyed⟩ := e.exists_run_of_serve hstore hanswer
  obtain ⟨time, payload, rfl, hsealed, hread⟩ := e.perform_created o.alone hkeyed hcall hrun
  have houtcome := e.serve_reader hreader hsound hlasts
  rw [htenant, hread] at houtcome
  have hwhole := given.withProperties_properties (o.wall time)
  refine ⟨⟨time, rfl⟩, ?_, ?_⟩
  · rw [houtcome, ← hsealed.openPayload_eq_ok_iff hopens hnonempty]
    constructor
    · intro hmap
      cases hopen : e.openPayload o.tenant payload with
      | error f =>
          rw [hopen] at hmap
          contradiction
      | ok p =>
          rw [hopen] at hmap
          have hsame := Entry.properties_of_answer (Except.ok.inj hmap)
          rw [hsame]
          cases given <;> rfl
    · intro hopen
      rw [hopen]
      exact congrArg (Except.ok ·.answer) hwhole
  · intro hgiven
    rw [houtcome, hsealed.openPayload_of_sound hopens hnonempty hgiven]
    split
    · exact congrArg (Except.ok ·.answer) hwhole
    · rfl

/-- A list is put that has 126 others inside one another. It is accepted, and it cannot be read. -/
theorem accepted_entries_are_read_if_legible_not_at_128_levels :
    let e : Engine :=
      { config := {}, cipher := .marking
        nonce := fun _ => [], shuffle := fun _ ids => ids, shuffle_perm := fun _ _ => .refl _ }
    let node : OpenNode :=
      ⟨"n", "person", "n", Json.properties [("x", .nested 127)], none, default⟩
    let o : Occasion :=
      ⟨⟨"acme"⟩, .createNode node, .unbounded, 0, fun _ => default, 0, 0, {}, rfl⟩
    let o' : Occasion := { o with call := .getNode "n" }
    let w : World := World.start {} default
    (e.serve o w).1.outcome = .ok (.node (node.mapRelevance (·.scoredAt default))) ∧
      (e.serve o' (e.serve o w).2).1.outcome = .error .malformed := by
  intro e node o o' w
  have hmembers : node.properties.toList = [("x", .nested 127)] :=
    Json.toList_properties (List.pairwise_singleton _ _)
  have hsound : node.properties.Sound := by
    unfold Properties.Sound
    rw [hmembers]
    exact ⟨Json.sound_nested 127, trivial⟩
  have hlevels : node.properties.levels = 128 := by
    unfold Properties.levels Json.ofProperties
    rw [hmembers]
    show max (Json.nested 127).levels 0 + 1 = 128
    rw [Json.levels_nested]
    rfl
  have hnode : checkNode node = .ok () := by
    decide +kernel
  have hcalm : (w.arrive o).Calm o.scope :=
    ⟨fun _ _ => rfl, fun _ _ => rfl, Scope.check_unbounded _⟩
  obtain ⟨created, hanswer⟩ := e.exists_created_of_calm (fun _ _ => ⟨_, rfl⟩) hnode hcalm rfl
  obtain ⟨⟨_, hgiven⟩, -, hread⟩ := accepted_entries_are_read_if_legible e Cipher.opens_marking
    Cipher.neverEmpty_marking w (.empty rfl) o (.node node) rfl _ hanswer o' rfl rfl
    (fun _ _ => rfl) (Scope.check_unbounded _)
  cases hgiven
  refine ⟨hanswer, (hread hsound).trans (if_neg ?_)⟩
  show ¬ node.properties.levels ≤ 127
  rw [hlevels]
  decide

end Engine
end SalientGraph
