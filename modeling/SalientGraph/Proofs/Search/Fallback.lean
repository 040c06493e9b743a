import SalientGraph.Proofs.Search.Agreement

/-!
# Hybrid searches without an embedding

A hybrid search that is not given an embedding asks for one. What the embedder reports
instead of an embedding is turned into the fault of a vector side that is not available,
and the search falls back on the terms of the text. Interruptions are not turned into
anything, as they are taken for those of the caller, and so an embedder that reports one
makes the search fail although its own scope is not over.
-/

namespace SalientGraph
namespace Engine

variable (e : Engine) {tenant : Tenant} {embedder : Embedder} {text : String} {f : Fault}

/-- Where the embedder fails, the vector side contributes nothing, or the interruption that the
embedder reports. -/
theorem vectorHits_of_embed_error (hblank : Text.isBlank text = false)
    (hasked : e.embedder = some embedder) (hfailed : embedder.embed text = .error f) (v : View)
    (online : Bool) (limit : Nat) :
    vectorHits (e.hybridVectorIn tenant v online text none limit) =
      if f.isInterruption then .error f else .ok [] := by
  have htold : e.textVector text = embeddingOf (.error f) := by
    unfold textVector
    rw [hasked, ← hfailed]
    exact if_neg (Bool.eq_false_iff.1 hblank)
  unfold hybridVectorIn
  rw [htold]
  -- each kind of fault is told apart by itself
  cases f <;> rfl

/-- Over every graph of which all nodes can be opened, for every text that is not blank, every limit
and every fault of the embedder, whatever the scope if it only outlasts the search: without an
embedding, a hybrid search ranks the nodes by their terms alone, unless the fault is an interruption,
and otherwise fails with it. Whether the store can rank by embeddings makes no difference. -/
theorem hybridSearch_survives_embedder_unless_interrupted (w : World)
    (halone : w.conditions.others = [])
    (hsound : ∀ served r, w.conditions.failure served r = none)
    (hfullText : w.conditions.fullText = true) (tenant : Tenant)
    (hopen : ∀ (id : String) (row : SealedNode), (w.store.tablesOf tenant).nodes[id]? = some row →
      ∃ node, e.openNode tenant row = .ok node)
    (hblank : Text.isBlank text = false) (limit : Nat) (hasked : e.embedder = some embedder)
    (hfailed : embedder.embed text = .error f) :
    ∃ byText : List OpenNode,
      (∀ scope : Scope, scope.Outlasts (e.fullTextSearch tenant { text := text } limit) w →
        ∃ u, e.fullTextSearch tenant { text := text } limit scope w = .ok byText u) ∧
      ∀ scope : Scope, scope.Outlasts (e.hybridSearch tenant text none limit) w →
        ∀ score : Float, outcomeOf (e.hybridSearch tenant text none limit scope w) =
          if f.isInterruption then .error f
          else .ok (Fusion.fuse [byText.map fun node => ⟨node, score⟩, []]
            (e.config.search.limit limit)) := by
  let t := w.store.tablesOf tenant
  let online := w.store.vectorOnline
  let cut := e.config.search.limit limit
  have hquiet : w.Quiet tenant t online := ⟨halone, hsound, hfullText, rfl, rfl⟩
  have hall : ∀ row ∈ t.view.nodes, ∃ node, e.openNode tenant row = .ok node := by
    intro row hrow
    obtain ⟨id, hid⟩ := View.mem_nodes.1 hrow
    exact hopen id row hid
  obtain ⟨hits, hhits⟩ := e.exists_hybridTextIn hall text cut
  refine ⟨hits.map (·.node), ?_, ?_⟩
  · intro scope hlive
    have houtcome := (e.settles_fullTextSearch text limit scope w hquiet).outcome hlive
    rw [hhits] at houtcome
    exact exists_ok_of_outcomeOf houtcome
  · intro scope hlive score
    rw [(e.settles_hybridSearch text none limit scope w hquiet).outcome hlive, hybridIn, hhits,
      e.vectorHits_of_embed_error hblank hasked hfailed]
    cases f.isInterruption with
    | true => rfl
    | false =>
        have hnodes : Fusion.fuse [hits, []] cut =
            Fusion.fuse [(hits.map (·.node)).map fun node => ⟨node, score⟩, []] cut :=
          Fusion.fuse_congr (by simp) cut
        exact congrArg Except.ok hnodes

/-- The embedder is offline, which it reports after some time, and each request takes some time as
well. The hybrid search ranks the node that has both words before the one that has one of them. -/
theorem hybridSearch_survives_embedder_unless_interrupted_when_it_is_offline :
    let offline : Embedder := ⟨fun _ => 20, fun _ => .error (.storage "model offline")⟩
    let e : Engine :=
      { embedder := some offline
        nonce := fun _ => [], shuffle := fun _ ids => ids, shuffle_perm := fun _ _ => .refl _ }
    let acme : Tenant := ⟨"acme"⟩
    let put (tx : Transaction) (id label : String) : Transaction :=
      tx.stageNode acme id (.put ⟨id, "concept", label, ⟨[]⟩, none, default⟩)
    let tx := put (put (Store.begin {} .readWrite).1 "a" "apple") "b" "red apple"
    let slow : Conditions := { delay := fun _ _ => 10 }
    let w : World := { World.start {} default with store := Store.commit {} tx, conditions := slow }
    let scope : Scope := ⟨some 1000, none⟩
    scope.Outlasts (e.hybridSearch acme "red apple" none 5) w ∧
      ∃ first second u, first.id = "b" ∧ second.id = "a" ∧
        e.hybridSearch acme "red apple" none 5 scope w =
          .ok [⟨first, Fusion.contribution 1⟩, ⟨second, Fusion.contribution 2⟩] u := by
  intro offline e acme put tx slow w scope
  have hblank : Text.isBlank "red apple" = false := by decide +kernel
  have hopen := e.exists_openNode_of_isOk
    (show ∀ entry ∈ (w.store.tablesOf acme).nodes.toList, (e.openNode acme entry.2).isOk = true by
      decide +kernel)
  have hruns : (answer? (e.fullTextSearch acme { text := "red apple" } 5 scope w)).map
        (fun found => found.map Node.id) = some ["b", "a"] ∧
      (finalState (e.fullTextSearch acme { text := "red apple" } 5 scope w)).clock < 1000 ∧
      (finalState (e.hybridSearch acme "red apple" none 5 scope w)).clock < 1000 := by
    -- what is sorted by merging is sorted by insertion, to be evaluated
    simp only [fullTextSearch, hybridSearch, hybrid, hybridText, textSide, Engine.textCandidates,
      TxAction.textCandidates, View.textCandidates, Fusion.fuse, best_eq_insertionSort]
    decide +kernel
  obtain ⟨hids, htime, htime'⟩ := hruns
  have hlasts : scope.Outlasts (e.hybridSearch acme "red apple" none 5) w :=
    Scope.check_of_lt_deadline htime'
  obtain ⟨byText, htext, hhybrid⟩ := hybridSearch_survives_embedder_unless_interrupted e w rfl
    (fun _ _ => rfl) rfl acme hopen hblank 5 rfl rfl
  obtain ⟨u, hfound⟩ := htext scope (Scope.check_of_lt_deadline htime)
  rw [hfound] at hids
  obtain ⟨first, rest, rfl, hfirst, hrest⟩ := List.map_eq_cons_iff.1 (Option.some.inj hids)
  obtain ⟨second, last, rfl, hsecond, hlast⟩ := List.map_eq_cons_iff.1 hrest
  cases List.map_eq_nil_iff.1 hlast
  have honce : ([⟨first, 0.5⟩, ⟨second, 0.5⟩] : List ScoredNode).map ScoredNode.id |>.Nodup := by
    show [first.id, second.id].Nodup
    rw [hfirst, hsecond]
    decide
  have hsingle := Fusion.fuse_single honce (by decide : 2 ≤ 5)
    fun i j hi hij hj => Fusion.contribution_decreases hi hij (by omega)
  obtain ⟨v, hrun⟩ := exists_ok_of_outcomeOf
    ((hhybrid scope hlasts 0.5).trans (congrArg Except.ok hsingle))
  exact ⟨hlasts, first, second, v, hfirst, hsecond, hrun⟩

/-- The embedder has a deadline of its own and reports that it was late. Nobody has interrupted the
hybrid search, but it fails, although the node that has the term is found without the embedder. -/
theorem late_embedder_fails_hybridSearch :
    let e : Engine :=
      { embedder := some ⟨fun _ => 0, fun _ => .error .deadlineExceeded⟩
        nonce := fun _ => [], shuffle := fun _ ids => ids, shuffle_perm := fun _ _ => .refl _ }
    let acme : Tenant := ⟨"acme"⟩
    ∃ created w, e.createNode acme (Node.create "rust" "concept" "rust" default) .unbounded
        (World.start {} default) = .ok created w ∧
      Text.isBlank "rust" = false ∧
      (∃ found u, e.fullTextSearch acme { text := "rust" } 5 .unbounded w = .ok found u ∧
        found.map Node.id = ["rust"]) ∧
      ∃ u, e.hybridSearch acme "rust" none 5 .unbounded w = .error .deadlineExceeded u := by
  intro e acme
  let creation := e.createNode acme (Node.create "rust" "concept" "rust" default) .unbounded
    (World.start {} default)
  have hcreation : (answer? creation).map Node.id = some "rust" := by decide +kernel
  obtain ⟨created, hcreated, _⟩ := exists_ok_of_map_answer? hcreation
  have hfound : (answer? (e.fullTextSearch acme { text := "rust" } 5 .unbounded
      (finalState creation))).map (fun found => found.map Node.id) = some ["rust"] := by
    decide +kernel
  have hfailed : fault? (e.hybridSearch acme "rust" none 5 .unbounded (finalState creation)) =
      some .deadlineExceeded := by
    decide +kernel
  obtain ⟨found, htext, hids⟩ := exists_ok_of_map_answer? hfound
  exact ⟨created, _, hcreated, by decide +kernel, ⟨found, _, htext, hids⟩, _,
    eq_error_of_fault? hfailed⟩

end Engine
end SalientGraph
