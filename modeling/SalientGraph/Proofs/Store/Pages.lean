import SalientGraph.Proofs.Store.Overlay

/-!
# Pages of nodes

The nodes after a cursor are listed in the order of their identifiers and cut off at a
limit. Over well-keyed tables this is a page of the sorted keys: it goes on just behind
the cursor and leaves nothing out but what comes after it, and unless it is full it
leaves nothing out at all.
-/

namespace SalientGraph

/-- Whether an identifier comes after a cursor. Without a cursor, all do. -/
def isAfter (cursor : Option String) (id : String) : Bool :=
  cursor.all (· < id)

/-- The first `limit` of some identifiers that come after a cursor. -/
def page (ids : List String) (cursor : Option String) (limit : Nat) : List String :=
  (ids.filter (isAfter cursor)).take limit

section
variable {ids : List String} {cursor : Option String} {limit : Nat}

@[simp] theorem isAfter_some (c id : String) : isAfter (some c) id = true ↔ c < id :=
  decide_eq_true_iff

theorem isAfter_of_lt {id other : String} (h : isAfter cursor id = true) (hlt : id < other) :
    isAfter cursor other = true := by
  cases cursor with
  | none => rfl
  | some c => exact (isAfter_some c other).2 (String.lt_trans ((isAfter_some c id).1 h) hlt)

/-- Behind an identifier after the cursor, fewer identifiers are left. -/
theorem countP_isAfter_lt {id : String} (hid : id ∈ ids) (hafter : isAfter cursor id = true) :
    ids.countP (isAfter (some id)) < ids.countP (isAfter cursor) := by
  have hmono : ∀ other, isAfter (some id) other = true → isAfter cursor other = true :=
    fun other hother => isAfter_of_lt hafter ((isAfter_some id other).1 hother)
  induction ids with
  | nil => contradiction
  | cons first rest ih =>
      have hrest : rest.countP (isAfter (some id)) ≤ rest.countP (isAfter cursor) :=
        List.countP_mono_left fun other _ => hmono other
      rcases List.mem_cons.1 hid with rfl | hmem
      · -- the identifier itself is no longer left
        have hself : ¬ isAfter (some id) id = true := fun h =>
          String.lt_irrefl id ((isAfter_some id id).1 h)
        rw [List.countP_cons_of_neg hself, List.countP_cons_of_pos hafter]
        exact Nat.lt_succ_of_le hrest
      · have hless := ih hmem
        by_cases hfirst : isAfter (some id) first = true
        · rw [List.countP_cons_of_pos hfirst, List.countP_cons_of_pos (hmono first hfirst)]
          exact Nat.succ_lt_succ hless
        · rw [List.countP_cons_of_neg hfirst]
          exact Nat.lt_of_lt_of_le hless (List.sublist_cons_self first rest).countP_le

theorem page_sublist : (page ids cursor limit).Sublist ids :=
  (List.take_sublist limit _).trans List.filter_sublist

theorem after_cursor_of_mem_page {id : String} (h : id ∈ page ids cursor limit) :
    isAfter cursor id = true :=
  (List.mem_filter.1 (List.mem_of_mem_take h)).2

/-- In a sorted list, all come before the last one. -/
theorem eq_or_lt_of_getLast? (hsorted : ids.Pairwise (· < ·)) {last : String}
    (hlast : ids.getLast? = some last) {id : String} (hid : id ∈ ids) : id = last ∨ id < last := by
  obtain ⟨before, rfl⟩ := List.getLast?_eq_some_iff.1 hlast
  rcases List.mem_append.1 hid with hbefore | hself
  · exact .inr ((List.pairwise_append.1 hsorted).2.2 id hbefore last List.mem_cons_self)
  · exact .inl (List.mem_singleton.1 hself)

/-- What is behind a cursor is behind the last identifier of a page after it. -/
theorem isAfter_getLast?_page {id : String} (h : isAfter cursor id = false) :
    isAfter ((page ids cursor limit).getLast?.or cursor) id = false := by
  cases hlast : (page ids cursor limit).getLast? with
  | none => exact h
  | some last =>
      have hafter := after_cursor_of_mem_page (List.mem_of_getLast? hlast)
      rw [Option.some_or, ← Bool.not_eq_true, isAfter_some]
      intro hlt
      rw [isAfter_of_lt hafter hlt] at h
      contradiction

/-- What is on a page is behind its last identifier. -/
theorem isAfter_getLast?_of_mem_page (hsorted : ids.Pairwise (· < ·)) {id : String}
    (h : id ∈ page ids cursor limit) :
    isAfter ((page ids cursor limit).getLast?.or cursor) id = false := by
  cases hlast : (page ids cursor limit).getLast? with
  | none =>
      rw [List.getLast?_eq_none_iff.1 hlast] at h
      contradiction
  | some last =>
      rw [Option.some_or, ← Bool.not_eq_true, isAfter_some]
      rcases eq_or_lt_of_getLast? (hsorted.sublist page_sublist) hlast h with rfl | hlt
      · exact String.lt_irrefl id
      · exact String.lt_asymm hlt

/-- Whatever comes after the cursor is on the page, or the page is full and ends before it. -/
theorem mem_page_or_full (hsorted : ids.Pairwise (· < ·)) {id : String} (hid : id ∈ ids)
    (hafter : isAfter cursor id = true) :
    id ∈ page ids cursor limit ∨
      (page ids cursor limit).length = limit ∧ ∀ other ∈ page ids cursor limit, other < id := by
  let rest := ids.filter (isAfter cursor)
  have hrest : (rest.take limit ++ rest.drop limit).Pairwise (· < ·) := by
    rw [List.take_append_drop]
    exact hsorted.filter _
  have hmem : id ∈ rest.take limit ++ rest.drop limit := by
    rw [List.take_append_drop]
    exact List.mem_filter.2 ⟨hid, hafter⟩
  rcases List.mem_append.1 hmem with hpage | hleft
  · exact .inl hpage
  · -- what was cut off comes after all that was not, and there was too much for the page
    have hlong : limit < rest.length := by
      have hdrop : 0 < (rest.drop limit).length := List.length_pos_of_mem hleft
      rw [List.length_drop] at hdrop
      omega
    refine .inr ⟨List.length_take_of_le (Nat.le_of_lt hlong), ?_⟩
    intro other hother
    exact (List.pairwise_append.1 hrest).2.2 other hother id hleft

/-- Behind the last identifier of a page there is what the page has cut off. -/
theorem filter_isAfter_getLast?_page (hsorted : ids.Pairwise (· < ·)) {last : String}
    (hlast : (page ids cursor limit).getLast? = some last) :
    ids.filter (isAfter (some last)) = (ids.filter (isAfter cursor)).drop limit := by
  let rest := ids.filter (isAfter cursor)
  have hrest : (page ids cursor limit ++ rest.drop limit).Pairwise (· < ·) := by
    rw [page, List.take_append_drop]
    exact hsorted.filter _
  have hmem : last ∈ page ids cursor limit := List.mem_of_getLast? hlast
  have hafter : isAfter cursor last = true := after_cursor_of_mem_page hmem
  have hbehind : ids.filter (isAfter (some last)) = rest.filter (isAfter (some last)) := by
    rw [List.filter_filter]
    apply List.filter_congr
    intro id _
    rw [Bool.eq_iff_iff, Bool.and_eq_true]
    exact ⟨fun h => ⟨h, isAfter_of_lt hafter ((isAfter_some last id).1 h)⟩, fun h => h.1⟩
  -- of what is behind the cursor, the page is not behind its last identifier and the rest is
  have hpage : (page ids cursor limit).filter (isAfter (some last)) = [] := by
    rw [List.filter_eq_nil_iff]
    intro id hid
    have hpassed := isAfter_getLast?_of_mem_page hsorted hid
    rw [hlast, Option.some_or] at hpassed
    rw [hpassed]
    exact Bool.false_ne_true
  have hcut : (rest.drop limit).filter (isAfter (some last)) = rest.drop limit := by
    rw [List.filter_eq_self]
    exact fun id hid => (isAfter_some last id).2 ((List.pairwise_append.1 hrest).2.2 last hmem id hid)
  calc ids.filter (isAfter (some last))
    _ = (page ids cursor limit ++ rest.drop limit).filter (isAfter (some last)) := by
        rw [hbehind, page, List.take_append_drop]
    _ = rest.drop limit := by rw [List.filter_append, hpage, hcut, List.nil_append]

end

/-- The keys of the nodes are in order. -/
theorem Tables.pairwise_keys_nodes (t : Tables) : t.nodes.keys.Pairwise (· < ·) := by
  have hordered : t.nodes.keys.Pairwise fun a b => compare a b = .lt :=
    Std.ExtTreeMap.ordered_keys
  exact hordered.imp fun h => compareOfLessAndEq_eq_lt.1 h

theorem Tables.nodup_keys_nodes (t : Tables) : t.nodes.keys.Nodup :=
  t.pairwise_keys_nodes.imp String.ne_of_lt

namespace Tables.WellKeyed

variable {t : Tables}

/-- The listed nodes have the keys that they are kept under. -/
theorem map_id_nodes (ht : t.WellKeyed) : t.view.nodes.map Node.id = t.nodes.keys := by
  have hkeys : ∀ entry ∈ t.nodes.toList, entry.2.id = entry.1 := by
    intro entry hentry
    exact ht.nodes (Std.ExtTreeMap.mem_toList_iff_getElem?_eq_some.1 hentry)
  have hnodes : t.view.nodes = t.nodes.toList.map (·.2) := Staging.rows_empty t.nodes
  rw [hnodes, List.map_map, ← Std.ExtTreeMap.map_fst_toList_eq_keys]
  exact List.map_congr_left hkeys

/-- The nodes after a cursor are those of a page of the keys. -/
theorem map_id_nodesAfter (ht : t.WellKeyed) (cursor : Option String) (limit : Nat) :
    (t.view.nodesAfter cursor limit).map Node.id = page t.nodes.keys cursor limit := by
  have hsorted : (t.view.nodes.map Node.id).Pairwise fun a b => (compare a b).isLE = true := by
    rw [ht.map_id_nodes]
    exact Std.ExtTreeMap.ordered_keys.imp fun h => by rw [h]; rfl
  -- the nodes are listed in order already, so sorting them changes nothing
  have hlisted : sortedBy (fun a b : SealedNode => compare a.id b.id)
      (t.view.nodes.filter fun n => cursor.all fun c => c < n.id) =
        t.view.nodes.filter fun n => cursor.all fun c => c < n.id :=
    List.mergeSort_of_pairwise ((List.pairwise_map.1 hsorted).filter _)
  unfold View.nodesAfter best page
  rw [hlisted, List.map_take, ← ht.map_id_nodes, List.filter_map]
  rfl

/-- A node on a page is found under its identifier. -/
theorem found_of_mem_nodesAfter (ht : t.WellKeyed) {cursor : Option String} {limit : Nat}
    {row : SealedNode} (h : row ∈ t.view.nodesAfter cursor limit) :
    t.nodes[row.id]? = some row := by
  have hrow : row ∈ t.view.nodes := (List.mem_filter.1 (mem_sortedBy.1 (List.mem_of_mem_take h))).1
  obtain ⟨id, hid⟩ := View.mem_nodes.1 hrow
  rw [View.node?_view] at hid
  rw [ht.nodes hid, hid]

end Tables.WellKeyed

end SalientGraph
