import SalientGraph.Scope.Family

/-!
# No scope outlives the one it is a part of

Members join a family under each other to any depth, some of them are cancelled, and
time passes, all in any order. A member knows its own number, the numbers of those that
it has joined under, and its own deadline, and tells from these whether it is over. That
it agrees with what was cancelled and with the deadlines above it is shown here for
whole chronicles. Who is above whom is read off the way in which the members have joined.
-/

namespace SalientGraph
namespace Scope

/-! ## Chronicles of a family -/

/-- How a member joins a family: alone, with or without a deadline, or under another member with
`timeout` milliseconds of its own. -/
inductive Origin where
  | alone
  | timed (timeout : Nat)
  | dated (deadline : Nat)
  | under (parent timeout : Nat)

/-- What happens next to a family. A member is referred to by the number of those before it. -/
inductive Move where
  | join (origin : Origin)
  | cancel (i : Nat)
  | pass (duration : Nat)

/-- A member with the way and the time in which it has joined. -/
structure Birth where
  member : Member
  origin : Origin
  time : Nat

/-- A family and what has happened to it: who has joined it, in order, and who was cancelled. -/
structure Chronicle where
  family : Family
  births : List Birth
  cancelled : List Nat
  clock : Nat

namespace Chronicle

/-- Nobody has joined yet. -/
def start (now : Nat) : Chronicle :=
  ⟨.empty, [], [], now⟩

/-- A new member, and the family with it. Nobody joins under a member that is not there. -/
def newcomer? (x : Chronicle) : Origin → Option (Member × Family)
  | .alone => some x.family.root
  | .timed timeout => some (x.family.root.1.withDeadline (x.clock + timeout), x.family.root.2)
  | .dated deadline => some (x.family.root.1.withDeadline deadline, x.family.root.2)
  | .under parent timeout =>
    x.births[parent]?.map fun b => x.family.child b.member x.clock timeout

def next (x : Chronicle) : Move → Chronicle
  | .join origin =>
    match x.newcomer? origin with
    | some (m, f) => { x with family := f, births := x.births ++ [⟨m, origin, x.clock⟩] }
    | none => x
  | .cancel i =>
    match x.births[i]? with
    | some b => { x with family := x.family.cancel b.member x.clock, cancelled := i :: x.cancelled }
    | none => x
  | .pass duration => { x with clock := x.clock + duration }

def after (x : Chronicle) (moves : List Move) : Chronicle :=
  moves.foldl next x

/-- Whether a member may go on. -/
def check (x : Chronicle) (b : Birth) : Except Fault Unit :=
  (x.family.scope b.member).check x.clock

end Chronicle

/-- A member and all that have joined under it, directly or not. -/
inductive Above (births : List Birth) (i : Nat) : Nat → Prop where
  | self : Above births i i
  | under {j k timeout : Nat} {b : Birth} (h : Above births i j) (hb : births[k]? = some b)
      (horigin : b.origin = .under j timeout) : Above births i k

/-- Who has joined stays in place when others join. -/
theorem getElem?_of_kept {births more : List Birth} (h : births <+: more) {i : Nat} {b : Birth}
    (hb : births[i]? = some b) : more[i]? = some b := by
  obtain ⟨hi, rfl⟩ := List.getElem?_eq_some_iff.1 hb
  exact List.prefix_iff_getElem?.1 h i hi

namespace Above

variable {births more : List Birth} {i j k : Nat}

theorem trans (h : Above births i j) (hjk : Above births j k) : Above births i k := by
  induction hjk with
  | self => exact h
  | under _ hb horigin ih => exact .under ih hb horigin

/-- Whoever joins later, those above a member stay above it. -/
theorem mono (h : Above births i j) (hmore : births <+: more) : Above more i j := by
  induction h with
  | self => exact .self
  | under _ hb horigin ih => exact .under ih (getElem?_of_kept hmore hb) horigin

end Above

/-! ## What a member is told -/

theorem earlier_le_own (deadline : Option Nat) (own : Nat) : earlier deadline own ≤ own := by
  cases deadline with
  | none => exact Nat.le_refl own
  | some d => exact Nat.min_le_right d own

theorem earlier_le_of_eq_some {deadline : Option Nat} {d : Nat} (h : deadline = some d)
    (own : Nat) : earlier deadline own ≤ d := by
  rw [h]
  exact Nat.min_le_left d own

section

variable {s : Scope} {now : Nat}

theorem check_eq_cancelled_iff :
    s.check now = .error .cancelled ↔ s.cancelledAt.any (· ≤ now) = true := by
  unfold check
  cases s.cancelledAt.any (· ≤ now) <;> cases s.deadline.any (· ≤ now) <;> simp

theorem any_deadline_iff :
    s.deadline.any (· ≤ now) = true ↔ ∃ d, s.deadline = some d ∧ d ≤ now := by
  cases s.deadline <;> simp

theorem check_eq_deadlineExceeded_iff : s.check now = .error .deadlineExceeded ↔
    ¬ s.cancelledAt.any (· ≤ now) = true ∧ ∃ d, s.deadline = some d ∧ d ≤ now := by
  rw [← any_deadline_iff]
  unfold check
  cases s.cancelledAt.any (· ≤ now) <;> cases s.deadline.any (· ≤ now) <;> simp

theorem check_eq_ok_iff_not_any : s.check now = .ok () ↔
    ¬ s.cancelledAt.any (· ≤ now) = true ∧ ¬ ∃ d, s.deadline = some d ∧ d ≤ now := by
  rw [← any_deadline_iff]
  unfold check
  cases s.cancelledAt.any (· ≤ now) <;> cases s.deadline.any (· ≤ now) <;> simp

end

/-- A member is cancelled by now if one of the numbers that it knows was cancelled by now. -/
theorem Family.any_cancelledAt?_iff (f : Family) (m : Member) (now : Nat) :
    (f.cancelledAt? m).any (· ≤ now) = true ↔
      ∃ c ∈ f.cancellations, c.1 ∈ m.lineage ∧ c.2 ≤ now := by
  unfold cancelledAt?
  have hmem : ∀ t, t ∈ (f.cancellations.filter fun c => m.lineage.contains c.1).map (·.2) ↔
      ∃ c ∈ f.cancellations, c.1 ∈ m.lineage ∧ c.2 = t := by
    simp [and_assoc]
  cases hfirst : ((f.cancellations.filter fun c => m.lineage.contains c.1).map (·.2)).min? with
  | none =>
      rw [List.min?_eq_none_iff] at hfirst
      rw [hfirst] at hmem
      simp only [Option.any_none, Bool.false_eq_true, false_iff]
      rintro ⟨c, hc, hnumber, -⟩
      exact List.not_mem_nil ((hmem c.2).2 ⟨c, hc, hnumber, rfl⟩)
  | some first =>
      obtain ⟨hlisted, hleast⟩ := List.min?_eq_some_iff.1 hfirst
      rw [Option.any_some, decide_eq_true_iff]
      constructor
      · intro hle
        obtain ⟨c, hc, hnumber, rfl⟩ := (hmem first).1 hlisted
        exact ⟨c, hc, hnumber, hle⟩
      · rintro ⟨c, hc, hnumber, hle⟩
        exact Nat.le_trans (hleast c.2 ((hmem c.2).2 ⟨c, hc, hnumber, rfl⟩)) hle

/-! ## What holds throughout a chronicle -/

/-- A birth fits in at its place: the number of the member is that of its place, and what it knows of
those above it and of its deadline is due to its parent, if it has one. -/
structure Birth.Fits (births : List Birth) (i : Nat) (b : Birth) : Prop where
  number : b.member.number = i
  alone : (∀ parent timeout, b.origin ≠ .under parent timeout) → b.member.ancestors = []
  under : ∀ parent timeout, b.origin = .under parent timeout →
    ∃ p, births[parent]? = some p ∧ parent < i ∧ b.member.ancestors = p.member.lineage ∧
      b.member.deadline = some (earlier p.member.deadline (b.time + timeout))

theorem Birth.Fits.mono {births more : List Birth} {i : Nat} {b : Birth} (h : b.Fits births i)
    (hmore : births <+: more) : b.Fits more i := by
  refine ⟨h.number, h.alone, ?_⟩
  intro parent timeout horigin
  obtain ⟨p, hp, hrest⟩ := h.under parent timeout horigin
  exact ⟨p, getElem?_of_kept hmore hp, hrest⟩

namespace Chronicle

/-- All births fit in, and the family remembers the cancellations that there were until now. -/
structure Orderly (x : Chronicle) : Prop where
  taken : x.family.taken = x.births.length
  fits : ∀ (i : Nat) (b : Birth), x.births[i]? = some b → b.Fits x.births i
  cancelled : ∀ i, i ∈ x.cancelled ↔ ∃ time, (i, time) ∈ x.family.cancellations
  known : ∀ i ∈ x.cancelled, i < x.births.length
  past : ∀ c ∈ x.family.cancellations, c.2 ≤ x.clock

theorem orderly_start (now : Nat) : (start now).Orderly where
  taken := rfl
  fits i b h := by simp [start] at h
  cancelled i := by simp [start, Family.empty]
  known i h := nomatch h
  past c h := nomatch h


section

variable {x : Chronicle}

/-! ### Joining -/

variable {origin : Origin} {m : Member} {f : Family}

theorem family_of_newcomer? (h : x.newcomer? origin = some (m, f)) :
    f = { x.family with taken := x.family.taken + 1 } := by
  cases origin with
  | alone | timed | dated => cases h; rfl
  | under parent timeout =>
      obtain ⟨p, -, hnew⟩ := Option.map_eq_some_iff.1 h
      cases hnew
      rfl

theorem Orderly.fits_newcomer? (hx : x.Orderly) (h : x.newcomer? origin = some (m, f)) :
    Birth.Fits x.births x.births.length ⟨m, origin, x.clock⟩ := by
  rw [← hx.taken]
  cases origin with
  | alone | timed | dated =>
      cases h
      exact ⟨rfl, fun _ => rfl, nofun⟩
  | under parent timeout =>
      obtain ⟨p, hp, hnew⟩ := Option.map_eq_some_iff.1 h
      cases hnew
      refine ⟨rfl, fun hnot => absurd rfl (hnot parent timeout), ?_⟩
      rintro _ _ ⟨⟩
      have hparent : parent < x.births.length := (List.getElem?_eq_some_iff.1 hp).1
      exact ⟨p, hp, hx.taken.symm ▸ hparent, rfl, rfl⟩

theorem births_prefix_next (x : Chronicle) (move : Move) : x.births <+: (x.next move).births := by
  cases move with
  | join origin =>
      unfold next
      dsimp only
      split
      · exact List.prefix_append _ _
      · exact List.prefix_rfl
  | cancel i =>
      unfold next
      dsimp only
      split <;> exact List.prefix_rfl
  | pass duration => exact List.prefix_rfl

theorem Orderly.join (hx : x.Orderly) (origin : Origin) : (x.next (.join origin)).Orderly := by
  have hkept := x.births_prefix_next (.join origin)
  unfold next at hkept ⊢
  dsimp only at hkept ⊢
  split at hkept
  · rename_i m f hnew
    have hfamily := family_of_newcomer? hnew
    refine ⟨?_, ?_, ?_, ?_, ?_⟩
    · rw [hfamily, List.length_append, List.length_singleton, ← hx.taken]
    · intro i b hb
      rcases Nat.lt_or_ge i x.births.length with hold | hlast
      · rw [List.getElem?_append_left hold] at hb
        exact (hx.fits i b hb).mono hkept
      · rw [List.getElem?_append_right hlast, List.getElem?_singleton] at hb
        split at hb
        · cases hb
          have hi : i = x.births.length := by omega
          rw [hi]
          exact (hx.fits_newcomer? hnew).mono hkept
        · contradiction
    · rw [hfamily]
      exact hx.cancelled
    · exact fun i hi => Nat.lt_of_lt_of_le (hx.known i hi) hkept.length_le
    · rw [hfamily]
      exact hx.past
  · exact hx

theorem Orderly.cancel (hx : x.Orderly) (i : Nat) : (x.next (.cancel i)).Orderly := by
  unfold next
  dsimp only
  split
  · rename_i b hb
    have hnumber := (hx.fits i b hb).number
    refine ⟨hx.taken, hx.fits, ?_, ?_, ?_⟩
    · intro j
      simp only [Family.cancel, List.mem_cons, Prod.mk.injEq, hx.cancelled, hnumber]
      constructor
      · rintro (rfl | ⟨time, hlisted⟩)
        · exact ⟨x.clock, .inl ⟨rfl, rfl⟩⟩
        · exact ⟨time, .inr hlisted⟩
      · rintro ⟨time, ⟨rfl, -⟩ | hlisted⟩
        · exact .inl rfl
        · exact .inr ⟨time, hlisted⟩
    · intro j hj
      rcases List.mem_cons.1 hj with rfl | hbefore
      · exact (List.getElem?_eq_some_iff.1 hb).1
      · exact hx.known j hbefore
    · intro c hc
      rcases List.mem_cons.1 hc with rfl | hbefore
      · exact Nat.le_refl _
      · exact hx.past c hbefore
  · exact hx

theorem Orderly.next (hx : x.Orderly) (move : Move) : (x.next move).Orderly := by
  cases move with
  | join origin => exact hx.join origin
  | cancel i => exact hx.cancel i
  | pass duration =>
      exact ⟨hx.taken, hx.fits, hx.cancelled, hx.known,
        fun c hc => Nat.le_add_right_of_le (hx.past c hc)⟩

theorem Orderly.after (hx : x.Orderly) (moves : List Move) : (x.after moves).Orderly := by
  induction moves generalizing x with
  | nil => exact hx
  | cons move moves ih => exact ih (hx.next move)

/-! ### What members know -/

variable {i j : Nat} {b c : Birth}

/-- The numbers that a member knows are its own and those of the members above it. -/
theorem Orderly.mem_lineage_iff (hx : x.Orderly) :
    ∀ {i : Nat} {b : Birth}, x.births[i]? = some b →
      (j ∈ b.member.lineage ↔ Above x.births j i) := by
  intro i
  induction i using Nat.strongRecOn with
  | _ i ih =>
      intro b hb
      have hfits := hx.fits i b hb
      rw [Member.lineage, List.mem_cons, hfits.number]
      constructor
      · rintro (rfl | hancestor)
        · exact .self
        · cases horigin : b.origin with
          | under parent timeout =>
              obtain ⟨p, hp, hless, hancestors, -⟩ := hfits.under parent timeout horigin
              rw [hancestors] at hancestor
              exact .under ((ih parent hless hp).1 hancestor) hb horigin
          | alone | timed | dated =>
              rw [hfits.alone (by rw [horigin]; nofun)] at hancestor
              contradiction
      · intro habove
        cases habove with
        | self => exact .inl rfl
        | @under k _ timeout b' h hb' horigin =>
            obtain rfl : b = b' := Option.some.inj (hb.symm.trans hb')
            obtain ⟨p, hp, hless, hancestors, -⟩ := hfits.under k timeout horigin
            rw [hancestors]
            exact .inr ((ih k hless hp).2 h)

/-- The member or one above it was cancelled. -/
def Lost (x : Chronicle) (i : Nat) : Prop :=
  ∃ j ∈ x.cancelled, Above x.births j i

/-- The clock has reached the deadline of a member. -/
def Late (x : Chronicle) (b : Birth) : Prop :=
  ∃ d, b.member.deadline = some d ∧ d ≤ x.clock

theorem Orderly.any_cancelledAt?_iff (hx : x.Orderly) (hb : x.births[i]? = some b) :
    (x.family.cancelledAt? b.member).any (· ≤ x.clock) = true ↔ x.Lost i := by
  rw [Family.any_cancelledAt?_iff]
  constructor
  · rintro ⟨⟨j, time⟩, hlisted, hnumber, -⟩
    exact ⟨j, (hx.cancelled j).2 ⟨time, hlisted⟩, (hx.mem_lineage_iff hb).1 hnumber⟩
  · rintro ⟨j, hj, habove⟩
    obtain ⟨time, hlisted⟩ := (hx.cancelled j).1 hj
    exact ⟨(j, time), hlisted, (hx.mem_lineage_iff hb).2 habove, hx.past _ hlisted⟩

theorem Orderly.check_eq_cancelled_iff (hx : x.Orderly) (hb : x.births[i]? = some b) :
    x.check b = .error .cancelled ↔ x.Lost i :=
  Scope.check_eq_cancelled_iff.trans (hx.any_cancelledAt?_iff hb)

theorem Orderly.check_eq_deadlineExceeded_iff (hx : x.Orderly) (hb : x.births[i]? = some b) :
    x.check b = .error .deadlineExceeded ↔ ¬ x.Lost i ∧ x.Late b := by
  rw [← hx.any_cancelledAt?_iff hb]
  exact Scope.check_eq_deadlineExceeded_iff

theorem Orderly.check_eq_ok_iff (hx : x.Orderly) (hb : x.births[i]? = some b) :
    x.check b = .ok () ↔ ¬ x.Lost i ∧ ¬ x.Late b := by
  rw [← hx.any_cancelledAt?_iff hb]
  exact Scope.check_eq_ok_iff_not_any

theorem Orderly.check_ne_ok_iff (hx : x.Orderly) (hb : x.births[i]? = some b) :
    x.check b ≠ .ok () ↔ x.Lost i ∨ x.Late b := by
  rw [ne_eq, hx.check_eq_ok_iff hb, Classical.not_and_iff_not_or_not, Classical.not_not,
    Classical.not_not]

/-- Deadlines do not come later further down. -/
theorem Orderly.deadline_le (hx : x.Orderly) (habove : Above x.births i j)
    (hb : x.births[i]? = some b) {d : Nat} (hd : b.member.deadline = some d) :
    ∀ {c : Birth}, x.births[j]? = some c → ∃ d', c.member.deadline = some d' ∧ d' ≤ d := by
  induction habove with
  | self =>
      intro c hc
      cases hb.symm.trans hc
      exact ⟨d, hd, Nat.le_refl d⟩
  | @under k _ timeout c' _ hc' horigin ih =>
      intro c hc
      cases hc'.symm.trans hc
      obtain ⟨p, hp, -, -, hdeadline⟩ := (hx.fits _ _ hc).under k timeout horigin
      obtain ⟨d', hd', hle⟩ := ih hp
      exact ⟨_, hdeadline, Nat.le_trans (earlier_le_of_eq_some hd' _) hle⟩

/-- A part of the scope of a member, as a sweep runs in it, is the scope of one that joins under the
member. -/
theorem Orderly.scope_child (hx : x.Orderly) (p : Birth) (timeout : Nat) :
    (x.family.child p.member x.clock timeout).2.scope
        (x.family.child p.member x.clock timeout).1 =
      (x.family.scope p.member).child x.clock timeout := by
  have hnew : ∀ entry ∈ x.family.cancellations, entry.1 ≠ x.family.taken := by
    rintro ⟨i, time⟩ hlisted
    have hknown := hx.known i ((hx.cancelled i).2 ⟨time, hlisted⟩)
    rw [hx.taken]
    exact Nat.ne_of_lt hknown
  -- nobody was cancelled by the new number, so it is known by the others only
  have hfilter : (x.family.cancellations.filter
        fun entry => (x.family.taken :: p.member.lineage).contains entry.1) =
      x.family.cancellations.filter fun entry => p.member.lineage.contains entry.1 := by
    apply List.filter_congr
    intro entry hentry
    rw [List.contains_cons, beq_eq_false_iff_ne.2 (hnew entry hentry), Bool.false_or]
  have hsame : (x.family.child p.member x.clock timeout).2.cancelledAt?
      (x.family.child p.member x.clock timeout).1 = x.family.cancelledAt? p.member :=
    congrArg (fun entries : List (Nat × Nat) => (entries.map Prod.snd).min?) hfilter
  exact congrArg (Scope.mk _) hsame

/-! ### Later on -/

/-- A chronicle goes on: nobody leaves, nobody who was cancelled comes back, and time passes. -/
structure GoesOn (x y : Chronicle) : Prop where
  births : x.births <+: y.births
  cancelled : x.cancelled ⊆ y.cancelled
  clock : x.clock ≤ y.clock

theorem goesOn_next (x : Chronicle) (move : Move) : x.GoesOn (x.next move) := by
  refine ⟨x.births_prefix_next move, ?_, ?_⟩
  · cases move with
    | join origin =>
        unfold next
        dsimp only
        split <;> exact List.Subset.refl _
    | cancel i =>
        unfold next
        dsimp only
        split
        · exact List.subset_cons_self i _
        · exact List.Subset.refl _
    | pass duration => exact List.Subset.refl _
  · cases move with
    | join origin =>
        unfold next
        dsimp only
        split <;> exact Nat.le_refl _
    | cancel i =>
        unfold next
        dsimp only
        split <;> exact Nat.le_refl _
    | pass duration => exact Nat.le_add_right _ _

theorem goesOn_after (moves : List Move) : ∀ x : Chronicle, x.GoesOn (x.after moves) := by
  induction moves with
  | nil => exact fun x => ⟨List.prefix_rfl, List.Subset.refl _, Nat.le_refl _⟩
  | cons move moves ih =>
      intro x
      have hfirst := x.goesOn_next move
      have hrest := ih (x.next move)
      exact ⟨hfirst.births.trans hrest.births, fun _ h => hrest.cancelled (hfirst.cancelled h),
        Nat.le_trans hfirst.clock hrest.clock⟩

/-- What is over for a member is over for those under it, from then on. -/
theorem Orderly.check_ne_ok_of_above (hx : x.Orderly) {y : Chronicle} (hy : y.Orderly)
    (hlater : x.GoesOn y) (hb : x.births[i]? = some b) (hover : x.check b ≠ .ok ())
    (hc : y.births[j]? = some c) (habove : Above y.births i j) : y.check c ≠ .ok () := by
  rw [hy.check_ne_ok_iff hc]
  rcases (hx.check_ne_ok_iff hb).1 hover with ⟨k, hk, hki⟩ | ⟨d, hd, hle⟩
  · exact .inl ⟨k, hlater.cancelled hk, (hki.mono hlater.births).trans habove⟩
  · obtain ⟨d', hd', hle'⟩ := hy.deadline_le habove (getElem?_of_kept hlater.births hb) hd hc
    exact .inr ⟨d', hd', Nat.le_trans hle' (Nat.le_trans hle hlater.clock)⟩

/-! ### With one cancellation more -/

/-- Two chronicles differ in the cancellation of a single member at most. -/
structure ApartFrom (i : Nat) (x y : Chronicle) : Prop where
  births : y.births = x.births
  taken : y.family.taken = x.family.taken
  clock : y.clock = x.clock
  cancelled : ∀ j, j ∈ y.cancelled → j = i ∨ j ∈ x.cancelled
  kept : x.cancelled ⊆ y.cancelled

theorem apartFrom_cancel (x : Chronicle) (i : Nat) : ApartFrom i x (x.next (.cancel i)) := by
  unfold next
  dsimp only
  split
  · exact ⟨rfl, rfl, rfl, fun j hj => List.mem_cons.1 hj, List.subset_cons_self i _⟩
  · exact ⟨rfl, rfl, rfl, fun j hj => .inr hj, List.Subset.refl _⟩

namespace ApartFrom

variable {y : Chronicle}

/-- The same member joins either of the two. -/
theorem newcomer? (h : ApartFrom i x y) (origin : Origin) :
    y.newcomer? origin = (x.newcomer? origin).map fun entry =>
      (entry.1, { y.family with taken := y.family.taken + 1 }) := by
  cases origin with
  | alone | timed | dated =>
      simp [Chronicle.newcomer?, Family.root, Member.withDeadline, h.taken, h.clock]
  | under parent timeout =>
      simp [Chronicle.newcomer?, Family.child, h.births, h.taken, h.clock, Function.comp_def]

theorem next (h : ApartFrom i x y) (move : Move) : ApartFrom i (x.next move) (y.next move) := by
  cases move with
  | join origin =>
      unfold Chronicle.next
      dsimp only
      rw [h.newcomer? origin]
      cases hnew : x.newcomer? origin with
      | none => exact h
      | some entry =>
          have htaken := congrArg Family.taken (family_of_newcomer? hnew)
          dsimp only [Option.map_some] at htaken ⊢
          refine ⟨?_, ?_, h.clock, h.cancelled, h.kept⟩
          · rw [h.births, h.clock]
          · rw [htaken, h.taken]
  | cancel j =>
      unfold Chronicle.next
      dsimp only
      rw [h.births]
      split
      · refine ⟨rfl, h.taken, h.clock, ?_, List.cons_subset_cons j h.kept⟩
        intro k hk
        rcases List.mem_cons.1 hk with rfl | hbefore
        · exact .inr List.mem_cons_self
        · exact (h.cancelled k hbefore).imp_right (List.mem_cons_of_mem j)
      · exact h
  | pass duration =>
      exact ⟨h.births, h.taken, congrArg (· + duration) h.clock, h.cancelled, h.kept⟩

theorem after (moves : List Move) :
    ∀ {x y : Chronicle}, ApartFrom i x y → ApartFrom i (x.after moves) (y.after moves) := by
  induction moves with
  | nil => exact fun h => h
  | cons move moves ih => exact fun h => ih (h.next move)

/-- Whoever is not under the member is told the same in both. -/
theorem check_eq (h : ApartFrom i x y) (hx : x.Orderly) (hy : y.Orderly)
    (hb : x.births[j]? = some b) (hnot : ¬ Above x.births i j) : y.check b = x.check b := by
  have hlost : y.Lost j ↔ x.Lost j := by
    unfold Lost
    rw [h.births]
    constructor
    · rintro ⟨k, hk, habove⟩
      rcases h.cancelled k hk with rfl | hbefore
      · exact absurd habove hnot
      · exact ⟨k, hbefore, habove⟩
    · rintro ⟨k, hk, habove⟩
      exact ⟨k, h.kept hk, habove⟩
  have hcancelled : (y.family.cancelledAt? b.member).any (· ≤ y.clock) =
      (x.family.cancelledAt? b.member).any (· ≤ x.clock) := by
    rw [Bool.eq_iff_iff, hx.any_cancelledAt?_iff hb, hy.any_cancelledAt?_iff (h.births ▸ hb), hlost]
  unfold check Scope.check Family.scope
  rw [hcancelled, h.clock]

end ApartFrom

end

/-- Over every chronicle: the deadline of a member is no later than that of the member that it has
joined under, nor than its own time allows. A member is told that it is cancelled if it was or one
above it was, else that its deadline is exceeded once the clock has reached it, and else to go on.
What is over for a member is over for all under it, however the chronicle goes on. One cancellation
more makes no difference for those that are not under the cancelled member, now or later. And what a
sweep runs in is the scope of one that has joined under its caller. -/
theorem members_never_outlive_those_above (now : Nat) (moves later : List Move) :
    let x := (start now).after moves
    let y := x.after later
    (∀ (i : Nat) (b : Birth) (parent timeout : Nat), x.births[i]? = some b →
      b.origin = .under parent timeout → ∃ (p : Birth) (d : Nat), x.births[parent]? = some p ∧
        b.member.deadline = some d ∧ d ≤ b.time + timeout ∧
          ∀ d', p.member.deadline = some d' → d ≤ d') ∧
    (∀ (i : Nat) (b : Birth), x.births[i]? = some b →
      (x.check b = .error .cancelled ↔ x.Lost i) ∧
      (x.check b = .error .deadlineExceeded ↔ ¬ x.Lost i ∧ x.Late b) ∧
      (x.check b = .ok () ↔ ¬ x.Lost i ∧ ¬ x.Late b)) ∧
    (∀ (i j : Nat) (b c : Birth), x.births[i]? = some b → x.check b ≠ .ok () →
      y.births[j]? = some c → Above y.births i j → y.check c ≠ .ok ()) ∧
    (∀ (i j : Nat) (c : Birth), y.births[j]? = some c → ¬ Above y.births i j →
      ((x.next (.cancel i)).after later).births[j]? = some c ∧
        ((x.next (.cancel i)).after later).check c = y.check c) ∧
    ∀ (p : Birth) (timeout : Nat),
      (x.family.child p.member x.clock timeout).2.scope
          (x.family.child p.member x.clock timeout).1 =
        (x.family.scope p.member).child x.clock timeout := by
  intro x y
  have hx : x.Orderly := (orderly_start now).after moves
  have hy : y.Orderly := hx.after later
  refine ⟨?_, ?_, ?_, ?_, ?_⟩
  · intro i b parent timeout hb horigin
    obtain ⟨p, hp, -, -, hdeadline⟩ := (hx.fits i b hb).under parent timeout horigin
    refine ⟨p, _, hp, hdeadline, ?_, ?_⟩
    · exact earlier_le_own _ _
    · exact fun d' hd' => earlier_le_of_eq_some hd' _
  · intro i b hb
    exact ⟨hx.check_eq_cancelled_iff hb, hx.check_eq_deadlineExceeded_iff hb, hx.check_eq_ok_iff hb⟩
  · intro i j b c hb hover hc habove
    exact hx.check_ne_ok_of_above hy (x.goesOn_after later) hb hover hc habove
  · intro i j c hc hnot
    have hapart : ApartFrom i y ((x.next (.cancel i)).after later) :=
      (x.apartFrom_cancel i).after later
    exact ⟨hapart.births ▸ hc, hapart.check_eq hy ((hx.next _).after later) hc hnot⟩
  · exact hx.scope_child

/-- The second member joins under the first one and the fourth one under the second one, which is then
cancelled. Below it all is over and stays so. The other two are told the same as without it: to go on,
until the first one comes to its deadline. -/
theorem members_never_outlive_those_above_in_three_generations :
    let w := (start 0).after
      [.join (.timed 100), .pass 10, .join (.under 0 200), .join .alone, .join (.under 1 5)]
    let x := w.next (.cancel 1)
    let y := x.after [.pass 90]
    ∃ root child other grandchild, y.births = [root, child, other, grandchild] ∧
      grandchild.member.deadline = some 15 ∧ (∃ d, child.member.deadline = some d ∧ d ≤ 100) ∧
      x.check grandchild = .error .cancelled ∧ y.check grandchild ≠ .ok () ∧
      y.check other = (w.after [.pass 90]).check other ∧ x.check root = .ok () ∧
      y.check root = .error .deadlineExceeded := by
  intro w x y
  obtain ⟨hdeadline, htold, hover, -⟩ := members_never_outlive_those_above 0
    [.join (.timed 100), .pass 10, .join (.under 0 200), .join .alone, .join (.under 1 5),
      .cancel 1] [.pass 90]
  obtain ⟨-, -, -, hapart, -⟩ := members_never_outlive_those_above 0
    [.join (.timed 100), .pass 10, .join (.under 0 200), .join .alone, .join (.under 1 5)]
    [.pass 90]
  let root : Birth := ⟨⟨0, [], some 100⟩, .timed 100, 0⟩
  let child : Birth := ⟨⟨1, [0], some 100⟩, .under 0 200, 10⟩
  let other : Birth := ⟨⟨2, [], none⟩, .alone, 10⟩
  let grandchild : Birth := ⟨⟨3, [1, 0], some 15⟩, .under 1 5, 10⟩
  have hbelow : Above y.births 1 3 := .under (b := grandchild) .self rfl rfl
  have hbeside : ¬ Above w.births 1 2 := by
    rintro (_ | ⟨-, hb, horigin⟩)
    cases hb
    contradiction
  have hchild : ∃ d, child.member.deadline = some d ∧ d ≤ 100 := by
    obtain ⟨p, d, hp, hd, -, hle⟩ := hdeadline 1 child 0 200 rfl rfl
    cases hp
    exact ⟨d, hd, hle 100 rfl⟩
  have hchild_over : x.check child ≠ .ok () := by
    rw [show x.check child = .error .cancelled from rfl]
    nofun
  refine ⟨root, child, other, grandchild, rfl, rfl, hchild, ?_, ?_, ?_, ?_, ?_⟩
  · exact (htold 3 grandchild rfl).1.2 ⟨1, List.mem_cons_self, hbelow⟩
  · exact hover 1 3 child grandchild rfl hchild_over rfl hbelow
  · exact (hapart 1 2 other rfl hbeside).2
  · rfl
  · rfl

end Chronicle
end Scope
end SalientGraph
