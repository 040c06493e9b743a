import Mathlib.Data.List.Sort
import SalientGraph.Proofs.Json.Numbers

/-!
# Values are read as they are written, up to a depth

The reader takes the text of a value for a document, piece by piece, whatever it has open
at that point. The document is the value again if the members of objects are in order and
the numbers are legible, unless arrays and objects are nested deeper than a document may
have them. A writer knows of no such bound.
-/

namespace SalientGraph
namespace Json

/-! ## The shape of a value -/

mutual

/-- How many arrays and objects there are at most inside one another. -/
def levels : Json → Nat
  | .null | .bool _ | .number _ | .text _ => 0
  | .array items => itemLevels items + 1
  | .object members => memberLevels members + 1

def itemLevels : List Json → Nat
  | [] => 0
  | v :: rest => max v.levels (itemLevels rest)

def memberLevels : List (String × Json) → Nat
  | [] => 0
  | (_, v) :: rest => max v.levels (memberLevels rest)

end

mutual

/-- The members of objects are in strict order, and numbers are legible. -/
def Sound : Json → Prop
  | .null | .bool _ | .text _ => True
  | .number n => n.Legible
  | .array items => SoundItems items
  | .object members =>
    members.Pairwise (fun a b => compare a.1 b.1 = .lt) ∧ SoundMembers members

def SoundItems : List Json → Prop
  | [] => True
  | v :: rest => v.Sound ∧ SoundItems rest

def SoundMembers : List (String × Json) → Prop
  | [] => True
  | (_, v) :: rest => v.Sound ∧ SoundMembers rest

end

mutual

/-- The document that a value is written as. -/
def document : Json → Document
  | .null => .null
  | .bool b => .bool b
  | .number n => .number (some n)
  | .text s => .text (some s)
  | .array items => .array (itemDocuments items)
  | .object members => .object (memberDocuments members)

def itemDocuments : List Json → List Document
  | [] => []
  | v :: rest => v.document :: itemDocuments rest

def memberDocuments : List (String × Json) → List (Option String × Document)
  | [] => []
  | (k, v) :: rest => (some k, v.document) :: memberDocuments rest

end

/-! ## The reader on a written value -/

/-- What becomes of a reader by the end of a text. -/
def Reader.read (r : Reader) (cs : List Char) : Option Reader :=
  (tokens cs).bind (List.foldlM Reader.step r)

theorem Reader.read_nil (r : Reader) : r.read [] = some r := by
  rw [read, tokens]
  rfl

theorem Reader.read_of_tokens {r r' : Reader} {cs rest : List Char} {t : Token}
    (htokens : tokens cs = (tokens rest).map (t :: ·)) (hstep : r.step t = some r') :
    r.read cs = r'.read rest := by
  unfold read
  rw [htokens, Option.bind_map]
  congr 1
  funext ts
  show List.foldlM step r (t :: ts) = _
  rw [List.foldlM_cons, hstep]
  rfl

theorem Reader.read_of_cut {r r' : Reader} {c : Char} {cs rest : List Char} {t : Token}
    (hgap : isGap c = false) (hcut : cutToken c cs = some (t, rest)) (hstep : r.step t = some r') :
    r.read (c :: cs) = r'.read rest :=
  read_of_tokens (tokens_cons hgap hcut) hstep

theorem read_writeText (s : String) (rest : List Char) {r r' : Reader}
    (hstep : r.step (.text (some s)) = some r') : r.read (writeText s ++ rest) = r'.read rest :=
  Reader.read_of_tokens (tokens_writeText s rest) hstep

theorem endsNumber_cons {c : Char} (h : c ∈ [',', ']', '}']) (rest : List Char) :
    EndsNumber (c :: rest) := by
  have hmarks : ∀ c ∈ [',', ']', '}'], c.isDigit = false ∧ c ≠ '.' ∧ c ≠ 'e' ∧ c ≠ 'E' :=
    List.all_iff_forall_prop.1 (by decide)
  exact hmarks c h

mutual

/-- Where a value is waited for, a written one is taken for its document. -/
theorem read_write : ∀ (v : Json) (_ : v.Sound) (mayClose : Bool) (opened : List Open)
    (rest : List Char) (_ : EndsNumber rest),
    (Reader.value mayClose opened).read (v.write ++ rest) =
      (Reader.complete v.document opened).read rest
  | .null, _, _, _, _, _ => Reader.read_of_cut rfl rfl rfl
  | .bool true, _, _, _, _, _ => Reader.read_of_cut rfl rfl rfl
  | .bool false, _, _, _, _, _ => Reader.read_of_cut rfl rfl rfl
  | .number _, hv, _, _, _, hrest => Reader.read_of_tokens (tokens_writeNumber hv hrest) rfl
  | .text s, _, _, _, rest, _ => read_writeText s rest rfl
  | .array [], _, _, _, _, _ =>
    (Reader.read_of_cut rfl rfl rfl).trans (Reader.read_of_cut rfl rfl rfl)
  | .array (v :: items), hv, mayClose, opened, rest, _ =>
    calc (Reader.value mayClose opened).read ((Json.array (v :: items)).write ++ rest)
      _ = (Reader.value mayClose opened).read ('[' :: (writeItems (v :: items) ++ ']' :: rest)) := by
        rw [write, List.append_assoc]
        rfl
      _ = (Reader.value true (.array [] :: opened)).read (writeItems (v :: items) ++ ']' :: rest) :=
        Reader.read_of_cut rfl rfl rfl
      _ = (Reader.complete (.array (itemDocuments (v :: items))) opened).read rest :=
        read_writeItems (v :: items) (List.cons_ne_nil _ _) hv true [] opened rest
  | .object [], _, _, _, _, _ =>
    (Reader.read_of_cut rfl rfl rfl).trans (Reader.read_of_cut rfl rfl rfl)
  | .object (m :: members), hv, mayClose, opened, rest, _ =>
    calc (Reader.value mayClose opened).read ((Json.object (m :: members)).write ++ rest)
      _ = (Reader.value mayClose opened).read ('{' :: (writeMembers (m :: members) ++ '}' :: rest)) := by
        rw [write, List.append_assoc]
        rfl
      _ = (Reader.key true [] opened).read (writeMembers (m :: members) ++ '}' :: rest) :=
        Reader.read_of_cut rfl rfl rfl
      _ = (Reader.complete (.object (memberDocuments (m :: members))) opened).read rest :=
        read_writeMembers (m :: members) (List.cons_ne_nil _ _) hv.2 true [] opened rest

/-- Items are taken one by one and added to those before them. -/
theorem read_writeItems : ∀ (items : List Json) (_ : items ≠ []) (_ : SoundItems items)
    (mayClose : Bool) (before : List Document) (opened : List Open) (rest : List Char),
    (Reader.value mayClose (.array before :: opened)).read (writeItems items ++ ']' :: rest) =
      (Reader.complete (.array (before.reverse ++ itemDocuments items)) opened).read rest
  | [v], _, hv, mayClose, before, opened, rest => by
      have hlast := read_write v hv.1 mayClose (.array before :: opened) (']' :: rest)
        (endsNumber_cons (by decide) _)
      have hclose : (Reader.item (v.document :: before) opened).read (']' :: rest) =
          (Reader.complete (.array (v.document :: before).reverse) opened).read rest :=
        Reader.read_of_cut rfl rfl rfl
      rw [List.reverse_cons] at hclose
      exact hlast.trans hclose
  | v :: w :: items, _, hv, mayClose, before, opened, rest => by
      have hfirst := read_write v hv.1 mayClose (.array before :: opened)
        (',' :: (writeItems (w :: items) ++ ']' :: rest)) (endsNumber_cons (by decide) _)
      have hcomma : (Reader.item (v.document :: before) opened).read
            (',' :: (writeItems (w :: items) ++ ']' :: rest)) =
          (Reader.value false (.array (v.document :: before) :: opened)).read
            (writeItems (w :: items) ++ ']' :: rest) :=
        Reader.read_of_cut rfl rfl rfl
      -- this item is among those before the next one
      have hmore := read_writeItems (w :: items) (List.cons_ne_nil _ _) hv.2 false
        (v.document :: before) opened rest
      rw [List.reverse_cons, List.append_assoc] at hmore
      rw [writeItems, List.append_assoc]
      · exact (hfirst.trans hcomma).trans hmore
      · exact List.cons_ne_nil _ _

/-- Members are taken one by one and added to those before them. -/
theorem read_writeMembers : ∀ (members : List (String × Json)) (_ : members ≠ [])
    (_ : SoundMembers members) (mayClose : Bool) (before : List (Option String × Document))
    (opened : List Open) (rest : List Char),
    (Reader.key mayClose before opened).read (writeMembers members ++ '}' :: rest) =
      (Reader.complete (.object (before.reverse ++ memberDocuments members)) opened).read rest
  | [(k, v)], _, hv, mayClose, before, opened, rest => by
      have hkey : (Reader.key mayClose before opened).read
            (writeText k ++ ':' :: (v.write ++ '}' :: rest)) =
          (Reader.value false (.object before (some k) :: opened)).read (v.write ++ '}' :: rest) :=
        (read_writeText k _ rfl).trans (Reader.read_of_cut rfl rfl rfl)
      have hlast := read_write v hv.1 false (.object before (some k) :: opened) ('}' :: rest)
        (endsNumber_cons (by decide) _)
      have hclose : (Reader.member ((some k, v.document) :: before) opened).read ('}' :: rest) =
          (Reader.complete (.object ((some k, v.document) :: before).reverse) opened).read rest :=
        Reader.read_of_cut rfl rfl rfl
      rw [List.reverse_cons] at hclose
      rw [writeMembers, List.append_assoc]
      exact (hkey.trans hlast).trans hclose
  | (k, v) :: (l, w) :: members, _, hv, mayClose, before, opened, rest => by
      have hkey : (Reader.key mayClose before opened).read (writeText k ++ ':' ::
            (v.write ++ ',' :: (writeMembers ((l, w) :: members) ++ '}' :: rest))) =
          (Reader.value false (.object before (some k) :: opened)).read
            (v.write ++ ',' :: (writeMembers ((l, w) :: members) ++ '}' :: rest)) :=
        (read_writeText k _ rfl).trans (Reader.read_of_cut rfl rfl rfl)
      have hfirst := read_write v hv.1 false (.object before (some k) :: opened)
        (',' :: (writeMembers ((l, w) :: members) ++ '}' :: rest)) (endsNumber_cons (by decide) _)
      have hcomma : (Reader.member ((some k, v.document) :: before) opened).read
            (',' :: (writeMembers ((l, w) :: members) ++ '}' :: rest)) =
          (Reader.key false ((some k, v.document) :: before) opened).read
            (writeMembers ((l, w) :: members) ++ '}' :: rest) :=
        Reader.read_of_cut rfl rfl rfl
      have hmore := read_writeMembers ((l, w) :: members) (List.cons_ne_nil _ _) hv.2 false
        ((some k, v.document) :: before) opened rest
      rw [List.reverse_cons, List.append_assoc] at hmore
      rw [writeMembers]
      · simp only [List.append_assoc, List.cons_append]
        exact ((hkey.trans hfirst).trans hcomma).trans hmore
      · exact List.cons_ne_nil _ _

end

/-! ## The value of a written document -/

/-- Members in strict order stay as they are when they are gathered in a map. -/
theorem toList_properties {members : List (String × Json)}
    (h : members.Pairwise fun a b => compare a.1 b.1 = .lt) : (properties members).toList = members := by
  have hdistinct : members.Pairwise fun a b => ¬ compare a.1 b.1 = .eq := by
    apply h.imp
    intro a b hlt heq
    rw [hlt] at heq
    contradiction
  have hirrefl : Std.Irrefl fun a b : String × Json => compare a.1 b.1 = .lt :=
    ⟨fun a hlt => by
      have hsame : compare a.1 a.1 = .eq := Std.ReflCmp.compare_self
      rw [hsame] at hlt
      contradiction⟩
  have hantisymm : Std.Antisymm fun a b : String × Json => compare a.1 b.1 = .lt :=
    ⟨fun a b hlt hgt => by
      rw [Std.OrientedCmp.gt_of_lt hlt] at hgt
      contradiction⟩
  have hvalue : ∀ k v, (k, v) ∈ members → (properties members)[k]? = some v :=
    fun k v => Std.ExtTreeMap.getElem?_ofList_of_mem Std.ReflCmp.compare_self hdistinct
  apply Std.ExtTreeMap.ordered_keys_toList.eq_of_mem_iff h
  rintro ⟨k, v⟩
  rw [Std.ExtTreeMap.mem_toList_iff_getElem?_eq_some]
  constructor
  · intro hfound
    cases hname : (members.map Prod.fst).contains k with
    | false =>
        rw [properties, Std.ExtTreeMap.getElem?_ofList_of_contains_eq_false hname] at hfound
        contradiction
    | true =>
        obtain ⟨⟨k', w⟩, hmem, rfl⟩ := List.mem_map.1 (List.contains_iff_mem.1 hname)
        rw [hvalue k' w hmem] at hfound
        cases hfound
        exact hmem
  · exact hvalue k v

/-- A property map is gathered from its members. -/
theorem properties_toList (p : Properties) : properties p.toList = p := by
  rw [← Std.ExtTreeMap.toList_inj]
  exact toList_properties Std.ExtTreeMap.ordered_keys_toList

section
variable {α β γ : Type} {p q : Prop} [Decidable p] [Decidable q]

theorem map_ite_none (a : α) (f : α → β) :
    (if p then some a else none).map f = if p then some (f a) else none := by
  split <;> rfl

theorem bind_ite_none (a : α) (b : β) (f : α → β → γ) :
    ((if p then some a else none) >>= fun a => (if q then some b else none) >>= fun b =>
      some (f a b)) = if p ∧ q then some (f a b) else none := by
  by_cases hp : p <;> by_cases hq : q <;> simp [hp, hq]

end

mutual

/-- The document of a value is this value, unless it nests too deep. -/
theorem value?_document : ∀ (v : Json) (_ : v.Sound) (n : Nat),
    v.document.value? n = if v.levels ≤ n then some v else none
  | .null, _, n => (if_pos (Nat.zero_le n)).symm
  | .bool _, _, n => (if_pos (Nat.zero_le n)).symm
  | .number _, _, n => (if_pos (Nat.zero_le n)).symm
  | .text _, _, n => (if_pos (Nat.zero_le n)).symm
  -- an array or an object leaves one level less to what is in it
  | .array items, _, 0 => (if_neg (Nat.not_succ_le_zero _)).symm
  | .array items, hv, n + 1 => by
      show (Document.itemValues? n (itemDocuments items)).map Json.array = _
      rw [itemValues?_itemDocuments items hv n, map_ite_none]
      simp only [levels, Nat.add_le_add_iff_right]
  | .object members, _, 0 => (if_neg (Nat.not_succ_le_zero _)).symm
  | .object members, hv, n + 1 => by
      have hsame : ofMembers members = .object members := congrArg Json.object (toList_properties hv.1)
      show (Document.memberValues? n (memberDocuments members)).map ofMembers = _
      rw [memberValues?_memberDocuments members hv.2 n, map_ite_none, hsame]
      simp only [levels, Nat.add_le_add_iff_right]

theorem itemValues?_itemDocuments : ∀ (items : List Json) (_ : SoundItems items) (n : Nat),
    Document.itemValues? n (itemDocuments items) =
      if itemLevels items ≤ n then some items else none
  | [], _, n => (if_pos (Nat.zero_le n)).symm
  | v :: items, hv, n => by
      have hfirst := value?_document v hv.1 n
      have hmore := itemValues?_itemDocuments items hv.2 n
      rw [itemDocuments, Document.itemValues?, hfirst, hmore, bind_ite_none]
      simp only [itemLevels, Nat.max_le]

theorem memberValues?_memberDocuments : ∀ (members : List (String × Json))
    (_ : SoundMembers members) (n : Nat),
    Document.memberValues? n (memberDocuments members) =
      if memberLevels members ≤ n then some members else none
  | [], _, n => (if_pos (Nat.zero_le n)).symm
  | (k, v) :: members, hv, n => by
      have hfirst := value?_document v hv.1 n
      have hmore := memberValues?_memberDocuments members hv.2 n
      rw [memberDocuments, Document.memberValues?, hfirst, hmore]
      show (_ >>= fun v => _ >>= fun ms => some ((k, v) :: ms)) = _
      rw [bind_ite_none v members fun v ms => (k, v) :: ms]
      simp only [memberLevels, Nat.max_le]

end

/-- A text is a document if the reader finishes one by its end. -/
theorem parse?_eq_read (s : String) :
    parse? s = (Reader.start.read s.toList).bind fun r =>
      match r with
      | .finished d => d.value? Document.maxLevels
      | _ => none := by
  unfold parse? Document.parse? Reader.read
  simp only [Option.bind_eq_bind, Option.bind_assoc]
  congr 1
  funext ts
  congr 1
  funext r
  cases r <;> rfl

/-- What is written is read again, unless it nests too deep. -/
theorem parse?_render {v : Json} (hv : v.Sound) :
    parse? v.render = if v.levels ≤ Document.maxLevels then some v else none := by
  have hread : Reader.start.read v.write = some (.finished v.document) := by
    have hwhole := read_write v hv false [] [] trivial
    rw [List.append_nil, Reader.read_nil] at hwhole
    exact hwhole
  rw [parse?_eq_read, render, String.toList_ofList, hread]
  exact value?_document v hv Document.maxLevels

end Json
end SalientGraph
