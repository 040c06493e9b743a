import SalientGraph.Proofs.Precedence
import SalientGraph.Proofs.Rereading
import SalientGraph.Proofs.Search.Hits
import SalientGraph.Proofs.Store.Reached

/-!
# Candidates are the best of all nodes

To rank nodes, a session goes through all of them, those that it has staged itself
included, keeps the ones that can be ranked at all, sorts them and cuts them off. What
is left are the best of these: no other node that can be ranked comes before any of
them. In which words a text asks for its terms makes no difference.
-/

namespace SalientGraph

/-! ## Which nodes are ranked -/

/-- A node answers a query: it is of the kind and of the salience asked for, and it has a term of the
text in its label or in its kind. -/
structure TextQuery.Finds (q : TextQuery) (n : SealedNode) : Prop where
  kind : ∀ kind ∈ q.kind, n.kind = kind
  salient : ∀ least ∈ q.minSalience, least ≤ n.relevance.salience.toFloat
  shares : ∃ term ∈ Text.terms q.text, term ∈ Text.terms n.label ∨ term ∈ Text.terms n.kind

theorem sharedTerms_pos_iff {terms : List String} {n : SealedNode} : 0 < sharedTerms terms n ↔
    ∃ term ∈ terms, term ∈ Text.terms n.label ∨ term ∈ Text.terms n.kind := by
  simp [sharedTerms, List.countP_pos_iff]

theorem TextQuery.finds_iff {q : TextQuery} {n : SealedNode} :
    q.Finds n ↔ q.admits n = true ∧ 0 < sharedTerms (Text.terms q.text) n := by
  rw [sharedTerms_pos_iff, admits, Bool.and_eq_true, Option.all_eq_true, Option.all_eq_true]
  simp only [beq_iff_eq, decide_eq_true_eq]
  exact ⟨fun h => ⟨⟨h.kind, h.salient⟩, h.shares⟩, fun h => ⟨h.1.1, h.1.2, h.2⟩⟩

instance (q : TextQuery) : DecidablePred q.Finds := fun _ =>
  decidable_of_iff _ TextQuery.finds_iff.symm

/-- The square of the length of a vector. -/
def squaredLength (vector : List Single) : Float :=
  vector.foldl (fun sum x => sum + x.toDouble.toFloat * x.toDouble.toFloat) 0.0

/-- A node can be compared to an embedding: it has one of as many coordinates, and neither is without
length. -/
def Comparable (embedding : List Single) (n : SealedNode) : Prop :=
  ∃ own ∈ n.embedding, own.length = embedding.length ∧
    (squaredLength embedding == 0.0) = false ∧ (squaredLength own == 0.0) = false

instance (embedding : List Single) : DecidablePred (Comparable embedding) := fun n =>
  inferInstanceAs (Decidable (∃ own ∈ n.embedding, own.length = embedding.length ∧
    (squaredLength embedding == 0.0) = false ∧ (squaredLength own == 0.0) = false))

/-- The sums of squares are those of either vector on its own. -/
theorem foldl_add_coordinates (a : List Single) : ∀ (b : List Single) (s : CosineSums),
    a.length = b.length →
      let sums := (coordinates a b).foldl (fun s c => s.add c.1.toFloat c.2.toFloat) s
      sums.left = a.foldl (fun sum x => sum + x.toDouble.toFloat * x.toDouble.toFloat) s.left ∧
        sums.right = b.foldl (fun sum x => sum + x.toDouble.toFloat * x.toDouble.toFloat) s.right := by
  induction a with
  | nil =>
      intro b s h
      cases b with
      | nil => exact ⟨rfl, rfl⟩
      | cons y b => contradiction
  | cons x a ih =>
      intro b s h
      cases b with
      | nil => contradiction
      | cons y b => exact ih b _ (Nat.succ.inj h)

/-- Vectors of one dimension have a cosine unless one of them is without length. -/
theorem isSome_cosine?_iff {a b : List Single} (h : a.length = b.length) :
    (cosine? a b).isSome = true ↔
      (squaredLength a == 0.0) = false ∧ (squaredLength b == 0.0) = false := by
  obtain ⟨hleft, hright⟩ := foldl_add_coordinates a b ⟨0.0, 0.0, 0.0⟩ h
  unfold cosine?
  dsimp only at hleft hright ⊢
  rw [hleft, hright]
  change (Option.isSome (if (squaredLength a == 0.0 || squaredLength b == 0.0) = true then none
    else some _)) = true ↔ _
  cases squaredLength a == 0.0 <;> cases squaredLength b == 0.0 <;> simp

/-- The cosine between an embedding and that of a node, if it has one. -/
def cosineOf? (embedding : List Single) (n : SealedNode) : Option Double :=
  n.embedding.bind (cosine? embedding)

theorem isSome_cosineOf? {embedding : List Single} {n : SealedNode} (h : Comparable embedding n) :
    (cosineOf? embedding n).isSome = true := by
  obtain ⟨own, hown, hlength, hlengths⟩ := h
  rw [cosineOf?, hown]
  exact (isSome_cosine?_iff hlength.symm).2 hlengths

/-! ## Shortlists -/

/-- Some candidates shortlist the nodes that are eligible: they are different nodes of these, as many as
there are within the limit, with their ranks and in the order of these and of `first`, and whoever
is left out comes after all of them. -/
structure Shortlists (t : Tables) (eligible : SealedNode → Prop) [DecidablePred eligible]
    (rank? : SealedNode → Option Double) (first : SealedNode → SealedNode → Prop) (limit : Nat)
    (found : List Candidate) : Prop where
  stored : ∀ c ∈ found, t.nodes[c.node.id]? = some c.node ∧ eligible c.node ∧
    rank? c.node = some c.rank
  nodup : (found.map (·.node.id)).Nodup
  ordered : found.Pairwise (Precedes Candidate.rank fun a b => first a.node b.node)
  length : found.length = min limit (t.nodes.toList.countP fun entry => eligible entry.2)
  others : ∀ id n, t.nodes[id]? = some n → eligible n → id ∉ found.map (·.node.id) →
    ∃ rank, rank? n = some rank ∧
      ∀ c ∈ found, Precedes Candidate.rank (fun a b => first a.node b.node) c ⟨n, rank⟩

/-- The listed nodes are those that are found under their identifiers. -/
theorem Tables.WellKeyed.mem_nodes_iff {t : Tables} (ht : t.WellKeyed) {n : SealedNode} :
    n ∈ t.view.nodes ↔ t.nodes[n.id]? = some n := by
  rw [View.mem_nodes]
  constructor
  · rintro ⟨id, hfound⟩
    rw [View.node?_view] at hfound
    rw [ht.nodes hfound, hfound]
  · intro hfound
    exact ⟨n.id, (View.node?_view t n.id).trans hfound⟩

section

variable (eligible : SealedNode → Prop) [DecidablePred eligible]
  (rank? : SealedNode → Option Double)

/-- The node as a candidate, if it is eligible. -/
def candidateOf? (n : SealedNode) : Option Candidate :=
  if eligible n then (rank? n).map fun rank => ⟨n, rank⟩ else none

variable {eligible rank?}

theorem candidateOf?_eq_some_iff {n : SealedNode} {c : Candidate} :
    candidateOf? eligible rank? n = some c ↔ eligible n ∧ c.node = n ∧ rank? n = some c.rank := by
  unfold candidateOf?
  split
  · rename_i heligible
    rw [Option.map_eq_some_iff]
    constructor
    · rintro ⟨rank, hrank, rfl⟩
      exact ⟨heligible, rfl, hrank⟩
    · rintro ⟨-, rfl, hrank⟩
      exact ⟨c.rank, hrank, rfl⟩
  · rename_i hnot
    simp [hnot]

variable {t : Tables} (ht : t.WellKeyed)
include ht

theorem mem_candidates_iff {c : Candidate} :
    c ∈ t.view.nodes.filterMap (candidateOf? eligible rank?) ↔
      t.nodes[c.node.id]? = some c.node ∧ eligible c.node ∧ rank? c.node = some c.rank := by
  rw [List.mem_filterMap, ← ht.mem_nodes_iff]
  constructor
  · rintro ⟨n, hn, hc⟩
    obtain ⟨heligible, rfl, hrank⟩ := candidateOf?_eq_some_iff.1 hc
    exact ⟨hn, heligible, hrank⟩
  · rintro ⟨hn, heligible, hrank⟩
    exact ⟨c.node, hn, candidateOf?_eq_some_iff.2 ⟨heligible, rfl, hrank⟩⟩

theorem nodup_ids_candidates :
    ((t.view.nodes.filterMap (candidateOf? eligible rank?)).map (·.node.id)).Nodup := by
  apply List.pairwise_map.2
  apply (List.pairwise_map.1 ht.nodup_ids_nodes).filterMap
  intro m n hne b hb c hc
  obtain ⟨-, rfl, -⟩ := candidateOf?_eq_some_iff.1 hb
  obtain ⟨-, rfl, -⟩ := candidateOf?_eq_some_iff.1 hc
  exact hne

omit ht in
theorem length_candidates (hranked : ∀ n, eligible n → (rank? n).isSome = true) :
    (t.view.nodes.filterMap (candidateOf? eligible rank?)).length =
      t.nodes.toList.countP fun entry => eligible entry.2 := by
  have hnodes : t.view.nodes = t.nodes.toList.map (·.2) := Staging.rows_empty t.nodes
  have hsome : ∀ n, (candidateOf? eligible rank? n).isSome = decide (eligible n) := by
    intro n
    unfold candidateOf?
    split
    · rename_i heligible
      rw [Option.isSome_map, hranked n heligible, decide_eq_true heligible]
    · rename_i hnot
      rw [decide_eq_false hnot]
      rfl
  rw [List.length_filterMap_eq_countP, hnodes, List.countP_map]
  simp only [Function.comp_def, hsome]

/-- The best candidates shortlist the eligible nodes. -/
theorem shortlists_best {order : Candidate → Candidate → Ordering} [Std.TransCmp order]
    {first : SealedNode → SealedNode → Prop}
    (horder : ∀ a b, order a b = .lt ↔
      Precedes Candidate.rank (fun a b : Candidate => first a.node b.node) a b)
    (hsame : ∀ a b, order a b = .eq → a.node.id = b.node.id)
    (hranked : ∀ n, eligible n → (rank? n).isSome = true) (limit : Nat) :
    Shortlists t eligible rank? first limit
      (best order limit (t.view.nodes.filterMap (candidateOf? eligible rank?))) := by
  have hnodup :
      ((t.view.nodes.filterMap (candidateOf? eligible rank?)).map (·.node.id)).Nodup :=
    nodup_ids_candidates ht
  refine ⟨?_, nodup_map_best hnodup, ?_, ?_, ?_⟩
  · intro c hc
    exact (mem_candidates_iff ht).1 (mem_sortedBy.1 (List.mem_of_mem_take hc))
  · exact (pairwise_lt_best hsame hnodup limit).imp fun {a b} => (horder a b).1
  · rw [length_best, length_candidates hranked]
  · intro id n hn heligible hleft
    obtain ⟨rank, hrank⟩ := Option.isSome_iff_exists.1 (hranked n heligible)
    have hid : n.id = id := ht.nodes hn
    refine ⟨rank, hrank, ?_⟩
    intro c hc
    have hmem : (⟨n, rank⟩ : Candidate) ∈ t.view.nodes.filterMap (candidateOf? eligible rank?) :=
      (mem_candidates_iff ht).2 ⟨hid.symm ▸ hn, heligible, hrank⟩
    apply (horder c ⟨n, rank⟩).1
    apply lt_of_not_mem_best hsame hnodup hc hmem
    intro hkept
    exact hleft (List.mem_map.2 ⟨_, hkept, hid⟩)

end

/-! ## The candidates of a graph -/

/-- A node comes first by a higher salience or, with the same salience, by a smaller identifier. -/
def MoreSalient : SealedNode → SealedNode → Prop :=
  Precedes (·.relevance.salience) fun a b => a.id < b.id

theorem byTerms_eq_lt_iff (a b : Candidate) : Candidate.byTerms a b = .lt ↔
    Precedes Candidate.rank (fun a b : Candidate => MoreSalient a.node b.node) a b := by
  apply descending_then_eq_lt_iff Candidate.rank fun a b : Candidate =>
    (descending a.node.relevance.salience b.node.relevance.salience).then
      (compare a.node.id b.node.id)
  intro a b
  exact descending_then_eq_lt_iff (fun n : SealedNode => n.relevance.salience)
    (fun a b => compare a.id b.id) (fun _ _ => compare_lt_iff_lt) a.node b.node

theorem byCosine_eq_lt_iff (a b : Candidate) : Candidate.byCosine a b = .lt ↔
    Precedes Candidate.rank (fun a b : Candidate => a.node.id < b.node.id) a b :=
  descending_then_eq_lt_iff Candidate.rank (fun a b : Candidate => compare a.node.id b.node.id)
    (fun _ _ => compare_lt_iff_lt) a b

theorem id_eq_of_byTerms (a b : Candidate) (h : Candidate.byTerms a b = .eq) :
    a.node.id = b.node.id :=
  Std.LawfulEqOrd.eq_of_compare (Ordering.then_eq_eq.1 (Ordering.then_eq_eq.1 h).2).2

theorem id_eq_of_byCosine (a b : Candidate) (h : Candidate.byCosine a b = .eq) :
    a.node.id = b.node.id :=
  Std.LawfulEqOrd.eq_of_compare (Ordering.then_eq_eq.1 h).2

/-- The share of the terms of a text that occur in a node, for every node. -/
def termRank? (text : String) (n : SealedNode) : Option Double :=
  some (.ofFloat (termRank (Text.terms text) n))

namespace View

variable (v : View)

theorem textCandidates_eq_best (q : TextQuery) (limit : Nat) : v.textCandidates q limit =
    best Candidate.byTerms limit (v.nodes.filterMap (candidateOf? q.Finds (termRank? q.text))) := by
  have hranked : v.nodes.filterMap (candidateOf? q.Finds (termRank? q.text)) =
      ((v.nodes.filter q.admits).filter fun n => 0 < sharedTerms (Text.terms q.text) n).map
        fun n => ⟨n, .ofFloat (termRank (Text.terms q.text) n)⟩ := by
    rw [List.filter_filter, ← List.filterMap_eq_map, List.filterMap_filter]
    apply List.filterMap_congr
    intro n _
    simp only [candidateOf?, TextQuery.finds_iff, Bool.and_eq_true, decide_eq_true_eq, and_comm]
    rfl
  unfold textCandidates
  dsimp only
  split
  · rename_i hempty
    -- without terms, no node shares any of them
    have hnone : v.nodes.filterMap (candidateOf? q.Finds (termRank? q.text)) = [] := by
      rw [List.filterMap_eq_nil_iff]
      intro n _
      have hnot : ¬ q.Finds n := by
        rintro ⟨-, -, term, hterm, -⟩
        rw [List.isEmpty_iff.1 hempty] at hterm
        contradiction
      exact if_neg hnot
    rw [hnone]
    simp [best, sortedBy]
  · rw [hranked]

theorem vectorCandidates_eq_best (embedding : List Single) (limit : Nat) :
    v.vectorCandidates embedding limit = best Candidate.byCosine limit
      (v.nodes.filterMap (candidateOf? (Comparable embedding) (cosineOf? embedding))) := by
  have hcandidate : ∀ n, vectorCandidate? embedding n =
      candidateOf? (Comparable embedding) (cosineOf? embedding) n := by
    intro n
    apply Option.ext
    intro c
    rw [candidateOf?_eq_some_iff]
    constructor
    · intro hc
      obtain ⟨own, hown, hc⟩ := Option.bind_eq_some_iff.1 hc
      split at hc
      · rename_i hlength
        obtain ⟨rank, hrank, hc⟩ := Option.bind_eq_some_iff.1 hc
        cases hc
        have hsome : (cosine? embedding own).isSome = true := by
          rw [hrank]
          rfl
        refine ⟨⟨own, hown, hlength, (isSome_cosine?_iff hlength.symm).1 hsome⟩, rfl, ?_⟩
        rw [cosineOf?, hown]
        exact hrank
      · contradiction
    · rintro ⟨⟨own, hown, hlength, -⟩, rfl, hrank⟩
      rw [cosineOf?, hown] at hrank
      have hcosine : cosine? embedding own = some c.rank := hrank
      unfold vectorCandidate?
      rw [hown]
      simp [hlength, hcosine]
  rw [vectorCandidates, funext hcandidate]

/-- Only the set of its terms counts of a text. -/
theorem textCandidates_congr (q : TextQuery) {text : String}
    (h : ∀ term, term ∈ Text.terms text ↔ term ∈ Text.terms q.text) (limit : Nat) :
    v.textCandidates { q with text := text } limit = v.textCandidates q limit := by
  have hperm : (Text.terms text).Perm (Text.terms q.text) :=
    (List.perm_ext_iff_of_nodup (Text.nodup_terms _) (Text.nodup_terms _)).2 h
  have hshared : sharedTerms (Text.terms text) = sharedTerms (Text.terms q.text) :=
    funext fun n => hperm.countP_eq _
  have hrank : termRank (Text.terms text) = termRank (Text.terms q.text) := by
    funext n
    rw [termRank, termRank, hshared, hperm.length_eq]
  have hempty : (Text.terms text).isEmpty = (Text.terms q.text).isEmpty := hperm.isEmpty_eq
  unfold textCandidates
  dsimp only
  rw [hshared, hrank, hempty]
  rfl

end View

/-! ## What is answered in time -/

/-- Nobody else uses the store, no request fails, these are the committed rows of a tenant, and the
store can rank by embeddings. -/
structure World.Indexed (tenant : Tenant) (t : Tables) (w : World) : Prop where
  steady : w.Steady tenant t
  online : w.store.vectorOnline = true

theorem World.placid_indexed (tenant : Tenant) (t : Tables) :
    World.Placid tenant t (World.Indexed tenant t) where
  alone hw := hw.steady.alone
  sound hw := hw.steady.sound
  tables hw := hw.steady.tables
  advance hw time := ⟨(placid_steady tenant t).advance hw.steady time, hw.online⟩
  served hw := ⟨(placid_steady tenant t).served hw.steady, hw.online⟩
  begun hw access := ⟨(placid_steady tenant t).begun hw.steady access, hw.online⟩

/-- The world is quiet, and this is the transaction. -/
structure Session.Within (quiet : World → Prop) (tx : Transaction) (s : Session) : Prop where
  world : quiet s.world
  tx : s.tx = tx

theorem Session.restsOn_within (quiet : World → Prop) (tx : Transaction) :
    Session.RestsOn quiet (Session.Within quiet tx) where
  world hs := hs.world
  moved hs _ hw := ⟨hw, hs.tx⟩

section

variable {tenant : Tenant} {store : Store} {quiet : World → Prop} {tx : Transaction}

/-- In a quiet session, the graph of the tenant is the committed one with what is staged. -/
theorem Session.Within.view_eq (hquiet : World.Placid tenant (store.tablesOf tenant) quiet)
    (s : Session) (hs : s.Within quiet tx) :
    s.world.store.view s.tx tenant = store.view tx tenant := by
  rw [Store.view, hs.tx, hquiet.tables hs.world]
  rfl

end

/-- Over every store that can come about and every transaction in it, whatever this has staged, and for
every limit: while nobody else uses the store and no request fails, every query for terms is
answered with a shortlist of the nodes that it finds, and so is every other text with the same
terms; and every embedding with a coordinate is answered with a shortlist of the nodes that it can
be compared to, if the store can rank by embeddings. -/
theorem candidates_are_the_best (store : Store) (hstore : store.Reached) (tx : Transaction)
    (htx : tx.Made) (tenant : Tenant) (limit : Nat) :
    let t := (store.view tx tenant).settled
    let steady := Session.Within (World.Steady tenant (store.tablesOf tenant)) tx
    let indexed := Session.Within (World.Indexed tenant (store.tablesOf tenant)) tx
    (∀ q : TextQuery, ∃ found,
      Shortlists t q.Finds (termRank? q.text) MoreSalient limit found ∧
        ∀ text, (∀ term, term ∈ Text.terms text ↔ term ∈ Text.terms q.text) →
          AnsweredInTime (·.world.clock) steady
            (TxAction.textCandidates tenant { q with text := text } limit) found) ∧
    ∀ embedding : List Single, embedding ≠ [] → ∃ found,
      Shortlists t (Comparable embedding) (cosineOf? embedding) (fun a b => a.id < b.id) limit
        found ∧
      AnsweredInTime (·.world.clock) indexed (TxAction.vectorCandidates tenant embedding limit)
        found := by
  intro t steady indexed
  let v := store.view tx tenant
  have ht : t.WellKeyed := hstore.wellKeyed_settled htx tenant
  constructor
  · intro q
    refine ⟨t.view.textCandidates q limit, ?_, ?_⟩
    · rw [View.textCandidates_eq_best]
      exact shortlists_best ht byTerms_eq_lt_iff id_eq_of_byTerms (fun _ _ => rfl) limit
    · intro text hterms
      have hplacid := World.placid_steady tenant (store.tablesOf tenant)
      have hcomes := (Session.restsOn_within _ tx).reading hplacid
        (Session.Within.view_eq hplacid) .textCandidates
        (·.textCandidates { q with text := text } limit)
      rw [v.alike_settled.textCandidates_eq ht, View.textCandidates_congr _ q hterms] at hcomes
      exact hcomes.answeredInTime
  · intro embedding hembedding
    refine ⟨t.view.vectorCandidates embedding limit, ?_, ?_⟩
    · rw [View.vectorCandidates_eq_best]
      exact shortlists_best ht byCosine_eq_lt_iff id_eq_of_byCosine
        (fun _ => isSome_cosineOf?) limit
    · have hplacid := World.placid_indexed tenant (store.tablesOf tenant)
      have hcomes := (Session.restsOn_within _ tx).vectorCandidates hplacid
        (Session.Within.view_eq hplacid) (fun _ hs => hs.world.online) hembedding limit
      rw [v.alike_settled.vectorCandidates_eq ht] at hcomes
      exact hcomes.answeredInTime

/-- One node is committed and another one is only staged. Both have a term of the text, in whatever
order and however often its words come, and the committed one can be compared to an embedding, though
not by numbers. There is room for one candidate. -/
theorem candidates_are_the_best_with_a_staged_node :
    let acme : Tenant := ⟨"acme"⟩
    let node (id label : String) (embedding : Option (List Single)) : SealedNode :=
      ⟨id, "concept", label, ⟨[]⟩, embedding, default⟩
    let committed := (Store.begin {} .readWrite).1.stageNode acme "a"
      (.put (node "a" "Red fox" (some [⟨0x7FC00000⟩])))
    let store := Store.commit {} committed
    let tx := (store.begin .readWrite).1.stageNode acme "b" (.put (node "b" "Fox" none))
    let s : Session := ⟨{ World.start {} default with store := store }, tx⟩
    let q : TextQuery := { text := "red fox" }
    let t := (store.view tx acme).settled
    store.Reached ∧ tx.Made ∧
      (∃ found u, TxAction.textCandidates acme { q with text := "Fox! Red, red fox" } 1 .unbounded s =
          .ok found u ∧
        Shortlists t q.Finds (termRank? q.text) MoreSalient 1 found ∧ found.length = 1) ∧
      ∃ found u, TxAction.vectorCandidates acme [⟨0x7FC00000⟩] 1 .unbounded s = .ok found u ∧
        Shortlists t (Comparable [⟨0x7FC00000⟩]) (cosineOf? [⟨0x7FC00000⟩]) (fun a b => a.id < b.id) 1
          found ∧ found.length = 1 := by
  intro acme node committed store tx s q t
  have hcommitted : committed.Made :=
    .staged {} (.putNode (node "a" "Red fox" (some [⟨0x7FC00000⟩]))) acme (.begun {} .readWrite) rfl
  have hstore : store.Reached := .committed (s := {}) (.empty rfl) hcommitted rfl
  have hmade : tx.Made := .staged store (.putNode (node "b" "Fox" none)) acme
    (.begun store .readWrite) rfl
  have hterms : ∀ term, term ∈ Text.terms "Fox! Red, red fox" ↔ term ∈ Text.terms q.text := by
    have hfirst : Text.terms "Fox! Red, red fox" = ["fox", "red"] := by decide +kernel
    have hsecond : Text.terms q.text = ["red", "fox"] := by decide +kernel
    intro term
    rw [hfirst, hsecond]
    simp [or_comm]
  have hfinds : (t.nodes.toList.countP fun entry => q.Finds entry.2) = 2 := by decide +kernel
  have hcomparable : (t.nodes.toList.countP fun entry => Comparable [⟨0x7FC00000⟩] entry.2) = 1 := by
    decide +kernel
  obtain ⟨htext, hvector⟩ := candidates_are_the_best store hstore tx hmade acme 1
  obtain ⟨byTerms, hbyTerms, hanswered⟩ := htext q
  obtain ⟨byCosine, hbyCosine, hcompared⟩ := hvector [⟨0x7FC00000⟩] (by decide)
  have hsteady : s.world.Steady acme (store.tablesOf acme) := ⟨rfl, fun _ _ => rfl, rfl⟩
  obtain ⟨u, hu⟩ := hanswered _ hterms .unbounded s ⟨hsteady, rfl⟩ (Scope.check_unbounded _)
  obtain ⟨u', hu'⟩ := hcompared .unbounded s ⟨⟨hsteady, rfl⟩, rfl⟩ (Scope.check_unbounded _)
  refine ⟨hstore, hmade, ⟨byTerms, u, hu, hbyTerms, ?_⟩, byCosine, u', hu', hbyCosine, ?_⟩
  · exact hbyTerms.length.trans (congrArg (min 1) hfinds)
  · exact hbyCosine.length.trans (congrArg (min 1) hcomparable)

end SalientGraph
