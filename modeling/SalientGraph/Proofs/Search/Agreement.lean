import SalientGraph.Proofs.Search.Fusing
import SalientGraph.Proofs.Search.Hits
import SalientGraph.Proofs.Store.Reached
import SalientGraph.Proofs.Undisturbed

/-!
# Hybrid searches agree with the single ones

Three searches look at blank texts, at missing embeddings and at the store on their own.
What each of them comes to when nothing goes wrong is computed here from the graph, and
so it shows that a hybrid search fuses what the single ones would answer.
-/

namespace SalientGraph

namespace View

variable {v : View} {limit : Nat} {c : Candidate}

theorem node_mem_of_mem_textCandidates {q : TextQuery} (h : c ∈ v.textCandidates q limit) :
    c.node ∈ v.nodes := by
  unfold textCandidates at h
  dsimp only at h
  split at h
  · contradiction
  · obtain ⟨row, hrow, rfl⟩ := List.mem_map.1 (mem_sortedBy.1 (List.mem_of_mem_take h))
    exact (List.mem_filter.1 (List.mem_filter.1 hrow).1).1

theorem node_mem_of_mem_vectorCandidates {embedding : List Single}
    (h : c ∈ v.vectorCandidates embedding limit) : c.node ∈ v.nodes := by
  obtain ⟨row, hrow, hc⟩ := List.mem_filterMap.1 (mem_sortedBy.1 (List.mem_of_mem_take h))
  rw [node_eq_of_vectorCandidate? hc]
  exact hrow

end View

namespace Engine

variable (e : Engine)

/-! ## The outcomes of searches -/

section

variable (tenant : Tenant) (v : View) (online : Bool) (text : String)
  (embedding : Option (List Single)) (limit : Nat)

/-- What the vector side comes to in a graph. -/
def vectorSideIn (vector : List Single) : Except Fault (List ScoredNode) :=
  if vector.isEmpty then .error (.invalidArgument "query embedding is empty")
  else if online then e.vectorHitsIn tenant v vector limit
  else .error (.unavailable "store has no vector index")

/-- What is made of the answer of an embedder. -/
def embeddingOf : Except Fault (List Single) → Except Fault (List Single)
  | .ok vector => .ok vector
  | .error f =>
    if f.isInterruption then .error f else .error (.unavailable ("embedder failed: " ++ f.message))

/-- The vector that there is for a text. -/
def textVector : Except Fault (List Single) :=
  match e.embedder with
  | none => .error (.unavailable "no query embedding and no embedder configured")
  | some embedder =>
    if Text.isBlank text then .error (.unavailable "nothing to embed")
    else embeddingOf (embedder.embed text)

/-- What the text side of a hybrid search comes to in a graph. -/
def hybridTextIn : Except Fault (List ScoredNode) :=
  if Text.isBlank text then .ok [] else e.textHitsIn tenant v { text := text } limit

/-- What the vector side of a hybrid search comes to in a graph. -/
def hybridVectorIn : Except Fault (List ScoredNode) :=
  match embedding with
  | some vector => e.vectorSideIn tenant v online limit vector
  | none => e.textVector text >>= e.vectorSideIn tenant v online limit

/-- What a hybrid search comes to in a graph. -/
def hybridIn : Except Fault (List ScoredNode) := do
  let byText ← e.hybridTextIn tenant v text limit
  let byVector ← vectorHits (e.hybridVectorIn tenant v online text embedding limit)
  return Fusion.fuse [byText, byVector] limit

end

open TxAction (Settles SettlesIn reading_settlesIn)
open World (placid_quiet)

variable {tenant : Tenant} {t : Tables} {online : Bool}

theorem settles_textSide (q : TextQuery) (limit : Nat) :
    Settles tenant t online (e.textSide tenant q limit) (e.textHitsIn tenant t.view q limit) := by
  have hfullText : ∀ scope s, Session.Quiet tenant t online s →
      Action.inTransaction Action.hasFullText scope s = .ok true s := fun _ s hs =>
    congrArg (EStateM.Result.ok · s) hs.world.fullText
  apply ComesTo.known hfullText
  apply SettlesIn.step
  exact (reading_settlesIn (placid_quiet tenant t online) .textCandidates
    (·.textCandidates q limit)).bind fun found => SettlesIn.ofOutcome (e.openCandidates tenant found)

theorem settles_vectorSide (limit : Nat) (vector : List Single) :
    Settles tenant t online (e.vectorSide tenant vector limit)
      (e.vectorSideIn tenant t.view online limit vector) := by
  have honline : ∀ scope s, Session.Quiet tenant t online s →
      Action.inTransaction Action.vectorOnline scope s = .ok online s := fun _ s hs =>
    congrArg (EStateM.Result.ok · s) hs.world.online
  unfold vectorSide vectorSideIn
  split
  · exact .throw _
  · rename_i hvector
    apply ComesTo.known honline
    cases online with
    | false => exact .throw _
    | true =>
        apply SettlesIn.step
        have hplacid := placid_quiet tenant t true
        have hrows : Settles tenant t true (TxAction.vectorCandidates tenant vector limit)
            (.ok (t.view.vectorCandidates vector limit)) :=
          (Session.restsOn_unwritten _).vectorCandidates hplacid (fun _ hs => hs.view_eq hplacid)
            (fun _ hs => hs.world.online) (mt List.isEmpty_iff.2 hvector) limit
        exact hrows.bind fun found => SettlesIn.ofOutcome (e.openCandidates tenant found)

theorem settles_embed (text : String) :
    Action.Settles tenant t online (e.embed text) (e.textVector text) := by
  unfold embed textVector
  cases e.embedder with
  | none => exact .throw _
  | some embedder =>
      dsimp only
      split
      · exact .throw _
      · have hconsult : Action.Settles tenant t online (consult embedder text)
            (embedder.embed text) :=
          (placid_quiet tenant t online).run _ _
        rw [Action.outcome_eq_attempt]
        apply hconsult.attempt.bind (k := embeddingOf)
        intro answer
        unfold embeddingOf
        cases answer with
        | ok vector => exact .pure vector
        | error f =>
            dsimp only
            split
            · exact .throw f
            · exact .throw _

theorem settles_hybrid (text : String) (embedding : Option (List Single)) (limit : Nat) :
    Settles tenant t online (e.hybrid tenant text embedding limit)
      (e.hybridIn tenant t.view online text embedding limit) := by
  have htext : Settles tenant t online (e.hybridText tenant text limit)
      (e.hybridTextIn tenant t.view text limit) := by
    unfold hybridText hybridTextIn
    split
    · exact .pure []
    · exact e.settles_textSide _ limit
  have hvector : Settles tenant t online (e.hybridVector tenant text embedding limit)
      (e.hybridVectorIn tenant t.view online text embedding limit) := by
    cases embedding with
    | some vector => exact e.settles_vectorSide limit vector
    | none =>
        exact (SettlesIn.inTransaction (e.settles_embed text)).bind (e.settles_vectorSide limit)
  exact (htext.alongside hvector).bind fun sides =>
    (SettlesIn.ofOutcome sides.1).bind fun byText =>
      (SettlesIn.ofOutcome (vectorHits sides.2)).bind fun byVector =>
        .pure (Fusion.fuse [byText, byVector] limit)

theorem settles_fullTextSearch (text : String) (limit : Nat) :
    Action.Settles tenant t online (e.fullTextSearch tenant { text := text } limit)
      (e.hybridTextIn tenant t.view text (e.config.search.limit limit) >>= fun hits =>
        .ok (hits.map (·.node))) := by
  unfold fullTextSearch hybridTextIn
  dsimp only
  split
  · exact .pure []
  · exact (Action.transact_settlesIn (placid_quiet tenant t online)
      (e.settles_textSide _ _)).bind fun hits => .pure (hits.map (·.node))

theorem settles_semanticSearch (vector : List Single) (limit : Nat) :
    Action.Settles tenant t online (e.semanticSearch tenant vector limit)
      (e.vectorSideIn tenant t.view online (e.config.search.limit limit) vector) :=
  Action.transact_settlesIn (placid_quiet tenant t online) (e.settles_vectorSide _ vector)

theorem settles_hybridSearch (text : String) (embedding : Option (List Single)) (limit : Nat) :
    Action.Settles tenant t online (e.hybridSearch tenant text embedding limit)
      (e.hybridIn tenant t.view online text embedding (e.config.search.limit limit)) :=
  Action.transact_settlesIn (placid_quiet tenant t online) (e.settles_hybrid text embedding _)

/-! ## Where every node can be opened -/

section

variable {v : View} (hopen : ∀ row ∈ v.nodes, ∃ node, e.openNode tenant row = .ok node)
include hopen

theorem exists_openCandidates {found : List Candidate} (h : ∀ c ∈ found, c.node ∈ v.nodes) :
    ∃ hits, e.openCandidates tenant found = .ok hits := by
  apply exists_mapM_eq_ok
  intro c hc
  obtain ⟨node, hnode⟩ := hopen c.node (h c hc)
  rw [hnode]
  exact ⟨_, rfl⟩

theorem exists_hybridTextIn (text : String) (limit : Nat) :
    ∃ hits, e.hybridTextIn tenant v text limit = .ok hits := by
  unfold hybridTextIn
  split
  · exact ⟨[], rfl⟩
  · exact e.exists_openCandidates hopen fun _ => View.node_mem_of_mem_textCandidates

/-- A vector side that fails contributes nothing. -/
theorem vectorHits_vectorSideIn (online : Bool) (limit : Nat) (vector : List Single) :
    vectorHits (e.vectorSideIn tenant v online limit vector) =
      .ok ((e.vectorSideIn tenant v online limit vector).toOption.getD []) := by
  unfold vectorSideIn
  split
  · rfl
  · split
    · obtain ⟨hits, hhits⟩ : ∃ hits, e.vectorHitsIn tenant v vector limit = .ok hits :=
        e.exists_openCandidates hopen fun _ => View.node_mem_of_mem_vectorCandidates
      rw [hhits]
      rfl
    · rfl

end

theorem hits_of_hybridTextIn (ht : t.WellKeyed) {text : String} {limit : Nat}
    {hits : List ScoredNode} (h : e.hybridTextIn tenant t.view text limit = .ok hits) :
    hits.length ≤ limit ∧ (hits.map ScoredNode.id).Nodup := by
  unfold hybridTextIn at h
  split at h
  · cases h
    exact ⟨Nat.zero_le _, .nil⟩
  · exact e.hits_of_textHitsIn ht h

/-! ## Agreement -/

/-- The vector that a hybrid search ranks by: the one that is given, or what the embedder makes of a
text that is not blank. -/
def queryVector? (text : String) (embedding : Option (List Single)) : Option (List Single) :=
  match embedding, e.embedder with
  | some vector, _ => some vector
  | none, some embedder => if Text.isBlank text then none else (embedder.embed text).toOption
  | none, none => none

/-- The hits that are contributed by vector: none if there is no vector or the search for it fails. -/
def byVectorIn (tenant : Tenant) (v : View) (online : Bool) (text : String)
    (embedding : Option (List Single)) (limit : Nat) : List ScoredNode :=
  ((e.queryVector? text embedding).bind fun vector =>
    (e.vectorSideIn tenant v online limit vector).toOption).getD []

/-- The vector side of a hybrid search contributes these hits, unless the embedder reports that it was
interrupted. -/
theorem vectorHits_hybridVectorIn {v : View}
    (hopen : ∀ row ∈ v.nodes, ∃ node, e.openNode tenant row = .ok node) (online : Bool)
    (text : String) (embedding : Option (List Single)) (limit : Nat)
    (hembedder : ∀ embedder f, embedding = none → Text.isBlank text = false →
      e.embedder = some embedder → embedder.embed text = .error f → f.isInterruption = false) :
    vectorHits (e.hybridVectorIn tenant v online text embedding limit) =
      .ok (e.byVectorIn tenant v online text embedding limit) := by
  cases embedding with
  | some vector => exact e.vectorHits_vectorSideIn hopen online limit vector
  | none =>
      unfold hybridVectorIn byVectorIn queryVector? textVector
      cases hasked : e.embedder with
      | none => rfl
      | some embedder =>
          dsimp only
          split
          · rfl
          · rename_i hblank
            cases hanswer : embedder.embed text with
            | ok vector => exact e.vectorHits_vectorSideIn hopen online limit vector
            | error f =>
                have hlost := hembedder embedder f rfl (Bool.eq_false_iff.2 hblank) hasked hanswer
                have hsaid : embeddingOf (.error f) =
                    .error (.unavailable ("embedder failed: " ++ f.message)) :=
                  if_neg (Bool.eq_false_iff.1 hlost)
                rw [hsaid]
                rfl

/-- While nothing goes wrong, and whatever the scope if it only outlasts the search: a hybrid search
fuses the nodes that the search for the terms answers with the hits of the search for the vector, with
no hits if there is no vector or the search for it fails. Without hits, the nodes are answered in order,
as long as lower ranks contribute less. -/
theorem hybridSearch_agrees_with_single_searches (w : World) (hstore : w.store.Reached)
    (halone : w.conditions.others = [])
    (hsound : ∀ served r, w.conditions.failure served r = none)
    (hfullText : w.conditions.fullText = true) (tenant : Tenant)
    (hopen : ∀ (id : String) (row : SealedNode), (w.store.tablesOf tenant).nodes[id]? = some row →
      ∃ node, e.openNode tenant row = .ok node)
    (text : String) (embedding : Option (List Single)) (limit : Nat)
    (hembedder : ∀ embedder f, embedding = none → Text.isBlank text = false →
      e.embedder = some embedder → embedder.embed text = .error f → f.isInterruption = false) :
    ∃ (byText : List OpenNode) (byVector : List ScoredNode),
      (∀ scope : Scope, scope.Outlasts (e.fullTextSearch tenant { text := text } limit) w →
        ∃ u, e.fullTextSearch tenant { text := text } limit scope w = .ok byText u) ∧
      (e.queryVector? text embedding = none → byVector = []) ∧
      (∀ vector, e.queryVector? text embedding = some vector →
        ∀ scope : Scope, scope.Outlasts (e.semanticSearch tenant vector limit) w →
          (answer? (e.semanticSearch tenant vector limit scope w)).getD [] = byVector) ∧
      ∀ scope : Scope, scope.Outlasts (e.hybridSearch tenant text embedding limit) w →
        ∃ fused u, e.hybridSearch tenant text embedding limit scope w = .ok fused u ∧
          (∀ score : Float, fused = Fusion.fuse [byText.map fun node => ⟨node, score⟩, byVector]
            (e.config.search.limit limit)) ∧
          (byVector = [] →
            (∀ i j, 1 ≤ i → i < j → j ≤ e.config.search.limit limit →
              totalOrder (.ofFloat (Fusion.contribution j)) (.ofFloat (Fusion.contribution i)) =
                .lt) →
            fused = (byText.zipIdx 1).map fun p => ⟨p.1, Fusion.contribution p.2⟩) := by
  -- all three searches cut off at the same limit, whatever is requested
  let cut := e.config.search.limit limit
  let t := w.store.tablesOf tenant
  let online := w.store.vectorOnline
  have hquiet : w.Quiet tenant t online := ⟨halone, hsound, hfullText, rfl, rfl⟩
  have hall : ∀ row ∈ t.view.nodes, ∃ node, e.openNode tenant row = .ok node := by
    intro row hrow
    obtain ⟨id, hid⟩ := View.mem_nodes.1 hrow
    exact hopen id row hid
  obtain ⟨hits, hhits⟩ := e.exists_hybridTextIn hall text cut
  have hvector := e.vectorHits_hybridVectorIn hall online text embedding cut hembedder
  refine ⟨hits.map (·.node), e.byVectorIn tenant t.view online text embedding cut, ?_, ?_, ?_, ?_⟩
  · intro scope hlive
    have houtcome := (e.settles_fullTextSearch text limit scope w hquiet).outcome hlive
    rw [hhits] at houtcome
    exact exists_ok_of_outcomeOf houtcome
  · intro hnone
    unfold byVectorIn
    rw [hnone]
    rfl
  · intro vector hasked scope hlive
    have houtcome := (e.settles_semanticSearch vector limit scope w hquiet).outcome hlive
    unfold byVectorIn
    -- an answer contributes its hits, a fault none
    rw [hasked, Option.bind_some, ← houtcome]
    cases e.semanticSearch tenant vector limit scope w <;> rfl
  · intro scope hlive
    have houtcome := (e.settles_hybridSearch text embedding limit scope w hquiet).outcome hlive
    unfold hybridIn at houtcome
    rw [hhits, hvector] at houtcome
    obtain ⟨u, hrun⟩ := exists_ok_of_outcomeOf houtcome
    refine ⟨_, u, hrun, ?_, ?_⟩
    · intro score
      apply Fusion.fuse_congr
      simp
    · intro hnil hless
      obtain ⟨hlength, hnodup⟩ := e.hits_of_hybridTextIn (hstore.wellKeyed tenant) hhits
      rw [hnil, Fusion.fuse_single hnodup hlength hless, List.zipIdx_map, List.map_map]
      rfl

/-- One node has both words of a text. Another one has one of them, and just the embedding that is
given, though it is no number. The embedding of a third one is too long. Each request takes some
time. With the embedding the second node comes first, and without it, as the embedder is not there,
it comes second. -/
theorem hybridSearch_agrees_with_single_searches_on_two_words :
    let e : Engine :=
      { embedder := some ⟨fun _ => 20, fun _ => .error (.unavailable "offline")⟩
        nonce := fun _ => [], shuffle := fun _ ids => ids, shuffle_perm := fun _ _ => .refl _ }
    let acme : Tenant := ⟨"acme"⟩
    let vector : List Single := [⟨0x7FC00000⟩]
    let put (tx : Transaction) (id label : String) (embedding : Option (List Single)) :
        Transaction :=
      tx.stageNode acme id (.put ⟨id, "concept", label, ⟨[]⟩, embedding, default⟩)
    let tx := put (put (put (Store.begin {} .readWrite).1 "a" "apple" (some vector))
      "b" "red apple" none) "c" "pear" (some (vector ++ vector))
    let slow : Conditions := { delay := fun _ _ => 10 }
    let w : World := { World.start {} default with store := Store.commit {} tx, conditions := slow }
    let scope : Scope := ⟨some 1000, none⟩
    w.store.Reached ∧ ∃ byText byVector fused,
      byText.map Node.id = ["b", "a"] ∧ byVector.map ScoredNode.id = ["a"] ∧
      fused.map ScoredNode.id = ["a", "b"] ∧
      (∃ u, e.fullTextSearch acme { text := "red apple" } 5 scope w = .ok byText u) ∧
      (∃ u, e.semanticSearch acme vector 5 scope w = .ok byVector u) ∧
      (∃ u, e.hybridSearch acme "red apple" (some vector) 5 scope w = .ok fused u) ∧
      fused = Fusion.fuse [byText.map fun node => ⟨node, 0.5⟩, byVector] 5 ∧
      ∃ u, e.hybridSearch acme "red apple" none 5 scope w =
        .ok ((byText.zipIdx 1).map fun p => ⟨p.1, Fusion.contribution p.2⟩) u := by
  intro e acme vector put tx slow w scope
  have hput (tx : Transaction) (id label : String) (embedding : Option (List Single))
      (haccess : tx.access = .readWrite) (h : tx.Made) : (put tx id label embedding).Made :=
    h.putNode haccess acme ⟨id, "concept", label, ⟨[]⟩, embedding, default⟩
  have hmade : tx.Made :=
    hput _ _ _ _ rfl (hput _ _ _ _ rfl (hput _ _ _ _ rfl (.begun {} .readWrite)))
  have hstore : w.store.Reached := .committed (.empty rfl) hmade rfl
  have hopen := e.exists_openNode_of_isOk
    (show ∀ entry ∈ (w.store.tablesOf acme).nodes.toList, (e.openNode acme entry.2).isOk = true by
      decide +kernel)
  have hruns : (answer? (e.fullTextSearch acme { text := "red apple" } 5 scope w)).map
        (fun found => found.map Node.id) = some ["b", "a"] ∧
      (answer? (e.semanticSearch acme vector 5 scope w)).map
        (fun found => found.map ScoredNode.id) = some ["a"] ∧
      (answer? (e.hybridSearch acme "red apple" (some vector) 5 scope w)).map
        (fun found => found.map ScoredNode.id) = some ["a", "b"] ∧
      (finalState (e.fullTextSearch acme { text := "red apple" } 5 scope w)).clock < 1000 ∧
      (finalState (e.semanticSearch acme vector 5 scope w)).clock < 1000 ∧
      (finalState (e.hybridSearch acme "red apple" (some vector) 5 scope w)).clock < 1000 ∧
      (finalState (e.hybridSearch acme "red apple" none 5 scope w)).clock < 1000 := by
    -- what is sorted by merging is sorted by insertion, to be evaluated
    simp only [fullTextSearch, semanticSearch, hybridSearch, hybrid, hybridText, hybridVector,
      textSide, Engine.textCandidates, TxAction.textCandidates, View.textCandidates, vectorSide,
      Engine.vectorCandidates, TxAction.vectorCandidates, View.vectorCandidates, Fusion.fuse,
      best_eq_insertionSort]
    decide +kernel
  obtain ⟨htexts, hvectors, hboth, htime, htime', htime₁, htime₂⟩ := hruns
  have hless : ∀ i j, 1 ≤ i → i < j → j ≤ e.config.search.limit 5 →
      totalOrder (.ofFloat (Fusion.contribution j)) (.ofFloat (Fusion.contribution i)) = .lt :=
    fun i j hi hij hj => Fusion.contribution_decreases hi hij (Nat.le_trans hj (by decide))
  have hembedder : ∀ embedder f, (none : Option (List Single)) = none →
      Text.isBlank "red apple" = false → e.embedder = some embedder →
        embedder.embed "red apple" = .error f → f.isInterruption = false := by
    rintro _ _ _ _ ⟨⟩ ⟨⟩
    rfl
  obtain ⟨byText, byVector, htext, _, hvector, hgiven⟩ :=
    hybridSearch_agrees_with_single_searches e w hstore rfl (fun _ _ => rfl) rfl acme hopen
      "red apple" (some vector) 5 fun _ _ h => by contradiction
  obtain ⟨byText', byVector', htext', hnone, _, hmissing⟩ :=
    hybridSearch_agrees_with_single_searches e w hstore rfl (fun _ _ => rfl) rfl acme hopen
      "red apple" none 5 hembedder
  obtain ⟨u, hfound⟩ := htext scope (Scope.check_of_lt_deadline htime)
  obtain ⟨u', hfound'⟩ := htext' scope (Scope.check_of_lt_deadline htime)
  have hsame : byText' = byText := by
    rw [hfound] at hfound'
    cases hfound'
    rfl
  obtain ⟨hits, hhits, hids⟩ := exists_ok_of_map_answer? hvectors
  have hbyVector : hits = byVector := by
    rw [← hvector vector rfl scope (Scope.check_of_lt_deadline htime'), hhits]
    rfl
  obtain ⟨fused, x, hfused, hsum, _⟩ := hgiven scope (Scope.check_of_lt_deadline htime₁)
  obtain ⟨single, y, hsingle, _, hranks⟩ := hmissing scope (Scope.check_of_lt_deadline htime₂)
  rw [hranks (hnone (by decide +kernel)) hless, hsame] at hsingle
  rw [hfound] at htexts
  rw [hfused] at hboth
  rw [hbyVector] at hhits hids
  exact ⟨hstore, byText, byVector, fused, Option.some.inj htexts, hids, Option.some.inj hboth,
    ⟨u, hfound⟩, ⟨_, hhits⟩, ⟨x, hfused⟩, hsum 0.5, y, hsingle⟩

end Engine
end SalientGraph
