import SalientGraph.Proofs.Script

/-!
# Interleaved transactions

Any number of transactions are under way at once, each going through a script of its
own, one request at a time and in any order among them. Each sees what the others have
committed by then. Scripts that put nothing do not get in each other's way: whatever
the order of the steps, the committed tables are those that the committed writes make
one after another, in the order of the commits. So no update is lost, and nothing that
was removed comes back.
-/

namespace SalientGraph

/-- A script that puts nothing, to be gone through by a transaction. -/
structure Job where
  script : Script Unit
  modest : script.Modest

/-- A script as a job, its answer set aside. -/
def Script.Modest.job {α : Type} {p : Script α} (h : p.Modest) : Job :=
  ⟨p >>= fun _ => pure (), h.bind fun _ => trivial⟩

/-- A transaction that is under way. -/
structure Process where
  /-- What is left of its script. -/
  rest : Script Unit
  tx : Transaction
  /-- The writes that it has asked for. -/
  calls : List (Tenant × Write)

namespace Process

/-- The next step of the script, with the calendar showing `now`. A fault ends the process. -/
def advance (s : Store) (now : Timestamp) (p : Process) : Option Process :=
  match p.rest with
  | .answer _ => some p
  | .refuse _ => none
  | .check rest => some { p with rest := rest }
  | .today rest => some { p with rest := rest now }
  | .read _ tenant rest => some { p with rest := rest (s.view p.tx tenant) }
  | .write tenant w rest =>
    match w.stage s p.tx tenant with
    | .ok (a, tx) => some ⟨rest a, tx, p.calls ++ [(tenant, w)]⟩
    | .error _ => none

theorem advance_write {s : Store} {tx tx' : Transaction} {tenant : Tenant} {w : Write}
    {a : Write.Answer} (h : w.stage s tx tenant = .ok (a, tx')) (now : Timestamp)
    (rest : Write.Answer → Script Unit) (calls : List (Tenant × Write)) :
    advance s now ⟨.write tenant w rest, tx, calls⟩ =
      some ⟨rest a, tx', calls ++ [(tenant, w)]⟩ := by
  simp only [advance, h]

end Process

/-- A store with the transactions that are under way. -/
structure Interleaving where
  store : Store
  running : Nat → Option Process
  /-- The writes of the committed transactions, in the order of the commits. -/
  committed : List (Tenant × Write)

/-- What can happen next. Processes are known by number. -/
inductive Move where
  | start (n : Nat) (job : Job)
  | advance (n : Nat) (now : Timestamp)
  | commit (n : Nat)
  /-- A transaction is rolled back, at whatever point: its scope is over or a request failed. -/
  | giveUp (n : Nat)

namespace Interleaving

/-- Nothing is under way yet. -/
def ofStore (s : Store) : Interleaving :=
  ⟨s, fun _ => none, []⟩

/-- The interleaving with another process, or none, under a number. -/
def replace (x : Interleaving) (n : Nat) (p : Option Process) : Interleaving :=
  { x with running := fun m => if m = n then p else x.running m }

/-- What a move leads to. A move that is not possible leads nowhere. -/
def after (x : Interleaving) : Move → Interleaving
  | .start n job =>
    match x.running n with
    | some _ => x
    | none =>
      { x with store := (x.store.begin .readWrite).2 }.replace n
        (some ⟨job.script, (x.store.begin .readWrite).1, []⟩)
  | .advance n now =>
    match x.running n with
    | some p => x.replace n (p.advance x.store now)
    | none => x
  | .commit n =>
    match x.running n with
    | some ⟨.answer _, tx, calls⟩ =>
      { x with store := x.store.commit tx, committed := x.committed ++ calls }.replace n none
    | _ => x
  | .giveUp n => x.replace n none

def run (x : Interleaving) (moves : List Move) : Interleaving :=
  moves.foldl after x

end Interleaving

/-! ## What a process has staged -/

/-- What the transaction has staged makes of all committed tables, or of what is left of them, the
same as the calls make one after another. -/
def Transaction.Carries (tx : Transaction) (s : Store) (calls : List (Tenant × Write)) : Prop :=
  ∀ graphs : Tenant → Tables, (∀ tenant, (graphs tenant).WellKeyed) →
    (∀ tenant, (graphs tenant).Within (s.tablesOf tenant)) →
      ∀ tenant, (tx.changesOf tenant).publish (graphs tenant) = Write.applyAll calls graphs tenant

/-- A process that can go on and be committed whatever the others do. -/
structure Process.Sound (s : Store) (p : Process) : Prop where
  writable : p.tx.access.isWritable = true
  modest : p.rest.Modest
  unput : ∀ call ∈ p.calls, call.2.isPut = false
  carries : p.tx.Carries s p.calls

theorem Transaction.Carries.mono {tx : Transaction} {s s' : Store} {calls : List (Tenant × Write)}
    (h : tx.Carries s calls) (hs : ∀ tenant, (s'.tablesOf tenant).Within (s.tablesOf tenant)) :
    tx.Carries s' calls :=
  fun graphs hkeyed hwithin => h graphs hkeyed fun tenant => (hwithin tenant).trans (hs tenant)

theorem Process.Sound.mono {s s' : Store} {p : Process} (h : p.Sound s)
    (hs : ∀ tenant, (s'.tablesOf tenant).Within (s.tablesOf tenant)) : p.Sound s' :=
  ⟨h.writable, h.modest, h.unput, h.carries.mono hs⟩

namespace Write

theorem applyAll_concat (calls : List (Tenant × Write)) (tenant : Tenant) (w : Write)
    (graphs : Tenant → Tables) :
    applyAll (calls ++ [(tenant, w)]) graphs = w.applyAt tenant (applyAll calls graphs) := by
  rw [applyAll, List.foldl_append]
  rfl

/-- Writes that put nothing bring no keys in, for whomever they are. -/
theorem within_applyAll {calls : List (Tenant × Write)}
    (hcalls : ∀ call ∈ calls, call.2.isPut = false) :
    ∀ {graphs : Tenant → Tables}, (∀ tenant, (graphs tenant).WellKeyed) →
      ∀ tenant, (applyAll calls graphs tenant).Within (graphs tenant) := by
  induction calls with
  | nil => exact fun _ _ => .refl _
  | cons call calls ih =>
      intro graphs hgraphs tenant
      have hfirst : (call.2.applyAt call.1 graphs tenant).Within (graphs tenant) := by
        unfold applyAt
        split
        · rename_i htenant
          rw [htenant]
          exact within_applyTo (hcalls call List.mem_cons_self) (hgraphs _)
        · exact .refl _
      have hrest := ih (fun other h => hcalls other (List.mem_cons_of_mem _ h))
        (wellKeyed_applyAt call.2 call.1 hgraphs) tenant
      exact hrest.trans hfirst

end Write

/-- A write that is staged adds to what the transaction carries. -/
theorem Transaction.Carries.stage {s : Store} {tx tx' : Transaction} {tenant : Tenant} {w : Write}
    {calls : List (Tenant × Write)} (h : tx.Carries s calls) (hstages : s.Stages w tenant tx tx') :
    tx'.Carries s (calls ++ [(tenant, w)]) := by
  intro graphs hkeyed hwithin other
  rw [Write.applyAll_concat, Write.applyAt]
  split
  · rename_i hother
    subst hother
    have hbefore := h graphs hkeyed hwithin other
    rw [← hbefore]
    apply hstages.publish _ (hwithin other)
    rw [hbefore]
    exact Write.wellKeyed_applyAll calls hkeyed other
  · rename_i hother
    rw [hstages.others other hother]
    exact h graphs hkeyed hwithin other

/-- A step of a process leaves it one that can go on. -/
theorem Process.Sound.advance {s : Store} (hs : s.WellKeyed) {p p' : Process} (h : p.Sound s)
    {now : Timestamp} (hstep : p.advance s now = some p') : p'.Sound s := by
  obtain ⟨rest, tx, calls⟩ := p
  obtain ⟨hwritable, hmodest, hunput, hcarries⟩ := h
  cases rest with
  | answer a =>
      cases hstep
      exact ⟨hwritable, hmodest, hunput, hcarries⟩
  | refuse f => contradiction
  | check rest =>
      cases hstep
      exact ⟨hwritable, hmodest, hunput, hcarries⟩
  | today rest =>
      cases hstep
      exact ⟨hwritable, hmodest now, hunput, hcarries⟩
  | read r tenant rest =>
      cases hstep
      exact ⟨hwritable, hmodest _, hunput, hcarries⟩
  | write tenant w rest =>
      -- what the process sees is what its calls make of what is committed by now
      have hkeyed : (s.view tx tenant).settled.WellKeyed := by
        show ((tx.changesOf tenant).publish (s.tablesOf tenant)).WellKeyed
        rw [hcarries s.tablesOf hs (fun _ => .refl _) tenant]
        exact Write.wellKeyed_applyAll calls hs tenant
      obtain ⟨tx', hstage, hstages⟩ := w.stage_eq_ok hwritable hkeyed
      rw [Process.advance_write hstage] at hstep
      cases hstep
      refine ⟨hstages.access ▸ hwritable, hmodest.2 _, ?_, hcarries.stage hstages⟩
      intro call hcall
      rcases List.mem_append.1 hcall with hcall | hcall
      · exact hunput call hcall
      · rw [List.mem_singleton.1 hcall]
        exact hmodest.1

/-! ## What all moves preserve -/

namespace Interleaving

/-- The committed tables are what the committed writes make of those of the beginning, and all that
is under way can go on. -/
structure Sound (graphs : Tenant → Tables) (x : Interleaving) : Prop where
  tables : x.store.tablesOf = Write.applyAll x.committed graphs
  unput : ∀ call ∈ x.committed, call.2.isPut = false
  running : ∀ {n : Nat} {p : Process}, x.running n = some p → p.Sound x.store

theorem sound_ofStore (s : Store) : (ofStore s).Sound s.tablesOf where
  tables := rfl
  unput := by simp [ofStore]
  running := by simp [ofStore]

variable {graphs : Tenant → Tables} {x : Interleaving}

theorem Sound.wellKeyed (h : x.Sound graphs) (hkeyed : ∀ tenant, (graphs tenant).WellKeyed) :
    x.store.WellKeyed := by
  intro tenant
  rw [h.tables]
  exact Write.wellKeyed_applyAll x.committed hkeyed tenant

/-- A process may be replaced by one that can go on. -/
theorem Sound.replace (h : x.Sound graphs) (n : Nat) {p : Option Process}
    (hp : ∀ q, p = some q → q.Sound x.store) : (x.replace n p).Sound graphs where
  tables := h.tables
  unput := h.unput
  running := by
    intro m q hq
    simp only [Interleaving.replace] at hq
    split at hq
    · exact hp q hq
    · exact h.running hq

theorem Sound.start (h : x.Sound graphs) (n : Nat) (job : Job) :
    (x.after (.start n job)).Sound graphs := by
  unfold after
  dsimp only
  split
  · exact h
  · have hbegun : Sound graphs { x with store := (x.store.begin .readWrite).2 } :=
      ⟨h.tables, h.unput, fun hq => (h.running hq).mono fun _ => .refl _⟩
    apply hbegun.replace
    rintro q hq
    cases hq
    refine ⟨rfl, job.modest, by simp, ?_⟩
    intro tables _ _ tenant
    show (Transaction.changesOf (x.store.begin .readWrite).1 tenant).publish (tables tenant) = _
    simp [Store.begin, Transaction.changesOf, Write.applyAll]

theorem Sound.advance (hkeyed : ∀ tenant, (graphs tenant).WellKeyed) (h : x.Sound graphs) (n : Nat)
    (now : Timestamp) : (x.after (.advance n now)).Sound graphs := by
  unfold after
  dsimp only
  split
  · rename_i p hp
    apply h.replace
    intro q hq
    exact (h.running hp).advance (h.wellKeyed hkeyed) hq
  · exact h

/-- A commit appends its writes to the committed ones, and leaves no key that was not there. -/
theorem Sound.commit (hkeyed : ∀ tenant, (graphs tenant).WellKeyed) (h : x.Sound graphs) (n : Nat) :
    (x.after (.commit n)).Sound graphs := by
  unfold after
  dsimp only
  split
  · rename_i a tx calls hp
    have hs := h.running hp
    have htables : (x.store.commit tx).tablesOf = Write.applyAll calls x.store.tablesOf := by
      funext tenant
      rw [Store.tablesOf_commit]
      exact hs.carries _ (h.wellKeyed hkeyed) (fun _ => .refl _) tenant
    have hcommitted : Sound graphs
        { x with store := x.store.commit tx, committed := x.committed ++ calls } := by
      refine ⟨?_, ?_, ?_⟩
      · rw [htables, h.tables, Write.applyAll, Write.applyAll, Write.applyAll, List.foldl_append]
      · intro call hcall
        rcases List.mem_append.1 hcall with hcall | hcall
        · exact h.unput call hcall
        · exact hs.unput call hcall
      · -- all others go on over tables that have no new keys
        intro m q hq
        apply (h.running hq).mono
        intro tenant
        rw [htables]
        exact Write.within_applyAll hs.unput (h.wellKeyed hkeyed) tenant
    exact hcommitted.replace n (by simp)
  · exact h

theorem Sound.after (hkeyed : ∀ tenant, (graphs tenant).WellKeyed) (h : x.Sound graphs)
    (move : Move) : (x.after move).Sound graphs := by
  cases move with
  | start n job => exact h.start n job
  | advance n now => exact h.advance hkeyed n now
  | commit n => exact h.commit hkeyed n
  | giveUp n => exact h.replace n (by simp)

theorem Sound.run (hkeyed : ∀ tenant, (graphs tenant).WellKeyed) (moves : List Move) :
    ∀ {x : Interleaving}, x.Sound graphs → (x.run moves).Sound graphs := by
  induction moves with
  | nil => exact fun h => h
  | cons move moves ih => exact fun h => ih (h.after hkeyed move)

/-! ## No update is lost and no row comes back -/

/-- Whatever the interleaving, every row of the beginning is accounted for by the writes of the
committed transactions: it is gone if one of them removed it, and otherwise it is there with all
their accesses, boosts and successors. No other row is there. -/
theorem accounts_run (s : Store) (hs : s.WellKeyed) (moves : List Move) (tenant : Tenant) :
    (∀ id, Effect.Accounts
      (Write.effectsIn (Write.onNode id) tenant ((ofStore s).run moves).committed)
      (s.tablesOf tenant).nodes[id]?
      (((ofStore s).run moves).store.tablesOf tenant).nodes[id]?) ∧
    (∀ key, Effect.Accounts
      (Write.effectsIn (Write.onEdge key) tenant ((ofStore s).run moves).committed)
      (s.tablesOf tenant).edges[key]?
      (((ofStore s).run moves).store.tablesOf tenant).edges[key]?) := by
  have hsound := Sound.run hs moves (sound_ofStore s)
  rw [hsound.tables]
  constructor
  · intro id
    have hnode := Write.find_applyAll (fun t => t.nodes[id]?) (Write.onNode id)
      (fun hw _ _ => Write.getElem?_nodes_applyTo hw _ id) tenant hsound.unput hs
    rw [hnode]
    exact Effect.accounts_resultOf _ _
  · intro key
    have hedge := Write.find_applyAll (fun t => t.edges[key]?) (Write.onEdge key)
      (fun hw _ ht => Write.getElem?_edges_applyTo hw ht key) tenant hsound.unput hs
    rw [hedge]
    exact Effect.accounts_resultOf _ _

/-- Two counts of accesses to one node that both read it before either is committed. -/
theorem accounts_run_of_overlapping_counts :
    let row : SealedNode := ⟨"a", "person", "Ada", ⟨[]⟩, none, default⟩
    let s := Store.withNode ⟨"acme"⟩ row
    let count := (Script.modest_count ⟨"acme"⟩ ["a"]).job
    let moves : List Move := [.start 0 count, .start 1 count, .advance 0 default,
      .advance 0 default, .advance 1 default, .advance 1 default, .advance 0 default,
      .advance 1 default, .advance 0 default, .advance 1 default, .advance 0 default,
      .advance 1 default, .commit 1, .commit 0]
    ∃ r, (((ofStore s).run moves).store.tablesOf ⟨"acme"⟩).nodes["a"]?
        = some { row with relevance := r } ∧ r.accessCount.toNat = 2 := by
  intro row s count moves
  have hkeyed : s.WellKeyed := Store.wellKeyed_withNode ⟨"acme"⟩ row
  have hnode := (accounts_run s hkeyed moves ⟨"acme"⟩).1 "a"
  have hbefore : (s.tablesOf ⟨"acme"⟩).nodes["a"]? = some row := by
    simp [s, row, Store.withNode, Store.tablesOf, Write.applyTo]
  have hkept : Effect.remove ∉
      Write.effectsIn (Write.onNode "a") ⟨"acme"⟩ ((ofStore s).run moves).committed := by
    have hall : (Write.effectsIn (Write.onNode "a") ⟨"acme"⟩
        ((ofStore s).run moves).committed).all (fun effect => effect.update?.isSome) = true := by
      decide +kernel
    intro h
    exact absurd (List.all_eq_true.1 hall _ h) (by simp [Effect.update?])
  have hcount : ((Write.effectsIn (Write.onNode "a") ⟨"acme"⟩
      ((ofStore s).run moves).committed).filterMap Effect.update?).countP (·.accessedAt.isSome)
        = 2 := by
    decide +kernel
  obtain ⟨r, hafter, hfollows⟩ := hnode.kept row hbefore hkept
  refine ⟨r, hafter, ?_⟩
  rw [hfollows.accessCount, hcount]
  rfl

end Interleaving

end SalientGraph
