/-
Workflow.Proofs.Patch.Commutation — patches whose order does not matter.

`Patch.applyAll_comm`: two patches are accepted in the one order if and only
if they are accepted in the other, and the document is the same, when

* they address places that are `Separated`: the paths part at segments that
  name different keys, and different items where an array stands there; or
* both are increments of one counter by amounts that are not negative, and
  the counter is not below 0.

An edit that is refused has no result here (`Patch.edited`), so that both
orders are two chains of the same partial functions.
-/
import Mathlib.Data.List.Infix
import Workflow.Proofs.Act.Field

namespace Workflow

/-! ## Fields -/

namespace Fields

variable {α : Type}

/-- A field that is written twice holds what was written last. -/
theorem insert_insert (key : String) (v w : α) (fields : List (String × α)) :
    insert key w (insert key v fields) = insert key w fields := by
  induction fields with
  | nil => simp [insert]
  | cons entry rest ih =>
    obtain ⟨k, x⟩ := entry
    by_cases hlt : key < k
    · simp [insert, hlt]
    · by_cases heq : key = k
      · simp [insert, heq]
      · simp [insert, hlt, heq, ih]

/-- Keys are ordered. -/
private theorem lt_trichotomy (k l : String) : k < l ∨ k = l ∨ l < k := by
  by_cases hlt : k < l
  · exact Or.inl hlt
  · by_cases hgt : l < k
    · exact Or.inr (Or.inr hgt)
    · exact Or.inr (Or.inl (String.le_antisymm hgt hlt))

/-- Fields with different keys may be written in either order; here, with the
keys in order. -/
private theorem insert_comm_of_lt {k l : String} (hkl : k < l) (v w : α)
    (fields : List (String × α)) :
    insert k v (insert l w fields) = insert l w (insert k v fields) := by
  have hne : l ≠ k := fun h => String.lt_irrefl k (h ▸ hkl)
  have hlk : ¬ l < k := String.lt_asymm hkl
  induction fields with
  | nil => simp [insert, hkl, hlk, hne]
  | cons entry rest ih =>
    obtain ⟨m, x⟩ := entry
    rcases lt_trichotomy l m with hl | rfl | hl
    · simp [insert, hl, String.lt_trans hkl hl, hkl, hlk, hne]
    · simp [insert, hkl, hlk, hne]
    · have hml : ¬ l < m := String.lt_asymm hl
      have hlm : l ≠ m := fun h => String.lt_irrefl m (h ▸ hl)
      rcases lt_trichotomy k m with hk | rfl | hk
      · simp [insert, hml, hlm, hk, hlk, hne]
      · simp [insert, hlk, hne]
      · have hmk : ¬ k < m := String.lt_asymm hk
        have hkm : k ≠ m := fun h => String.lt_irrefl m (h ▸ hk)
        simp [insert, hml, hlm, hmk, hkm, ih]

/-- Different keys find their places in either order. -/
theorem insert_comm {k l : String} (hkl : k ≠ l) (v w : α) (fields : List (String × α)) :
    insert k v (insert l w fields) = insert l w (insert k v fields) := by
  rcases lt_trichotomy k l with h | h | h
  · exact insert_comm_of_lt h v w fields
  · exact absurd h hkl
  · exact (insert_comm_of_lt h w v fields).symm

end Fields

/-! ## Edits that may be refused -/

namespace Patch

variable {edit other : Json → Except Fault Json}

/-- The document after an edit, unless the edit is refused. -/
def edited (edit : Json → Except Fault Json) (segments : List String) (doc : Json) : Option Json :=
  match editAt edit segments doc with
  | (new, none) => some new
  | (_, some _) => none

/-- The item that a segment names. -/
def item? (segment : String) (items : List Json) : Option (Nat × Json) := do
  let i ← Text.readUnsigned segment.toList
  let item ← items[i]?
  return (i, item)

/-- At the end of the path the operation is made, or refused. -/
theorem edited_nil (doc : Json) : edited edit [] doc = (edit doc).toOption := by
  unfold edited editAt
  cases edit doc <;> rfl

theorem edited_obj (segment : String) (rest : List String) (fields : List (String × Json)) :
    edited edit (segment :: rest) (.obj fields) =
      (edited edit rest ((Fields.get? segment fields).getD .null)).map fun new =>
        .obj (Fields.insert segment new fields) := by
  unfold edited
  rw [editAt]
  rcases editAt edit rest _ with ⟨new, _ | fault⟩ <;> rfl

/-- Where there is nothing, an object is made. -/
theorem edited_null (segment : String) (rest : List String) :
    edited edit (segment :: rest) .null = edited edit (segment :: rest) (.obj []) := by
  unfold edited editAt
  rfl

/-- An edit inside an array writes the item back, if the segment names one. -/
theorem edited_arr (segment : String) (rest : List String) (items : List Json) :
    edited edit (segment :: rest) (.arr items) =
      (item? segment items).bind fun found =>
        (edited edit rest found.2).map fun new => .arr (items.set found.1 new) := by
  unfold edited item?
  rw [editAt]
  cases Text.readUnsigned segment.toList with
  | none => rfl
  | some i =>
    simp only [Option.bind_eq_bind, Option.bind_some]
    cases items[i]? with
    | none => rfl
    | some item =>
      simp only [Option.bind_some, Option.pure_def]
      rcases editAt edit rest item with ⟨new, _ | fault⟩ <;> rfl

/-! ## Separated places -/

/-- Neither path leads through the place of the other, and where they part
the two segments are not the same position of an array. -/
structure Separated (p q : List String) : Prop where
  not_prefix : ¬ p <+: q
  not_prefix' : ¬ q <+: p
  position_ne : ∀ {way rest rest' : List String} {s t : String},
    p = way ++ s :: rest → q = way ++ t :: rest' → s ≠ t →
      ∀ i, Text.readUnsigned s.toList = some i → Text.readUnsigned t.toList ≠ some i

theorem Separated.symm {p q : List String} (h : Separated p q) : Separated q p where
  not_prefix := h.not_prefix'
  not_prefix' := h.not_prefix
  position_ne hq hp hne i ht hs := h.position_ne hp hq hne.symm i hs ht

/-- Behind a common segment the paths are still separated. -/
theorem Separated.tail {s : String} {p q : List String} (h : Separated (s :: p) (s :: q)) :
    Separated p q where
  not_prefix hpq := h.not_prefix (List.cons_prefix_cons.mpr ⟨rfl, hpq⟩)
  not_prefix' hqp := h.not_prefix' (List.cons_prefix_cons.mpr ⟨rfl, hqp⟩)
  position_ne {way rest rest' t u} hp hq hne := h.position_ne
    (show s :: p = (s :: way) ++ t :: rest by rw [hp, List.cons_append])
    (show s :: q = (s :: way) ++ u :: rest' by rw [hq, List.cons_append]) hne

/-- Segments where the paths part right away. -/
structure Apart (s t : String) : Prop where
  ne : s ≠ t
  position_ne : ∀ i, Text.readUnsigned s.toList = some i → Text.readUnsigned t.toList ≠ some i

/-- The first segments of separated paths are the same or apart. -/
theorem Separated.head {s t : String} {p q : List String} (h : Separated (s :: p) (t :: q)) :
    s = t ∨ Apart s t := by
  by_cases hst : s = t
  · exact Or.inl hst
  · exact Or.inr ⟨hst, h.position_ne (List.nil_append _).symm (List.nil_append _).symm hst⟩

theorem Apart.symm {s t : String} (h : Apart s t) : Apart t s where
  ne := h.ne.symm
  position_ne i ht hs := h.position_ne i hs ht

/-- Paths that part at their first segments. -/
theorem Apart.separated {s t : String} (h : Apart s t) (p q : List String) :
    Separated (s :: p) (t :: q) where
  not_prefix hpq := h.ne (List.cons_prefix_cons.mp hpq).1
  not_prefix' hqp := h.ne (List.cons_prefix_cons.mp hqp).1.symm
  position_ne {way rest rest' u v} hp hq hne := by
    cases way with
    | nil =>
      obtain ⟨rfl, -⟩ := List.cons.inj hp
      obtain ⟨rfl, -⟩ := List.cons.inj hq
      exact h.position_ne
    | cons w way =>
      obtain ⟨rfl, -⟩ := List.cons.inj hp
      obtain ⟨rfl, -⟩ := List.cons.inj hq
      exact absurd rfl h.ne

/-- A common segment may come in front. -/
theorem Separated.cons {p q : List String} (h : Separated p q) (s : String) :
    Separated (s :: p) (s :: q) where
  not_prefix hpq := h.not_prefix (List.cons_prefix_cons.mp hpq).2
  not_prefix' hqp := h.not_prefix' (List.cons_prefix_cons.mp hqp).2
  position_ne {way rest rest' t u} hp hq hne := by
    cases way with
    | nil =>
      obtain ⟨rfl, -⟩ := List.cons.inj hp
      obtain ⟨rfl, -⟩ := List.cons.inj hq
      exact absurd rfl hne
    | cons w way => exact h.position_ne (List.cons.inj hp).2 (List.cons.inj hq).2 hne

section

variable {s t : String} {rest : List String} {fields : List (String × Json)} {items : List Json}
  {i : Nat} {item new : Json}

theorem edited_insert_same :
    edited edit (s :: rest) (.obj (Fields.insert s new fields)) =
      (edited edit rest new).map fun newer => .obj (Fields.insert s newer fields) := by
  rw [edited_obj, Fields.get?_insert, if_pos rfl]
  simp only [Option.getD_some, Fields.insert_insert]

theorem edited_insert_of_ne (hne : s ≠ t) :
    edited edit (t :: rest) (.obj (Fields.insert s new fields)) =
      (edited edit rest ((Fields.get? t fields).getD .null)).map fun newer =>
        .obj (Fields.insert t newer (Fields.insert s new fields)) := by
  rw [edited_obj, Fields.get?_insert, if_neg hne]

/-- A segment names the item at the position that it spells. -/
theorem item?_eq_some (h : item? s items = some (i, item)) :
    Text.readUnsigned s.toList = some i ∧ items[i]? = some item := by
  obtain ⟨j, hread, h⟩ := Option.bind_eq_some_iff.mp h
  obtain ⟨there, hget, h⟩ := Option.bind_eq_some_iff.mp h
  obtain ⟨rfl, rfl⟩ := Prod.mk.inj (Option.some.inj h)
  exact ⟨hread, hget⟩

theorem item?_set_same (h : item? s items = some (i, item)) (new : Json) :
    item? s (items.set i new) = some (i, new) := by
  obtain ⟨hread, hget⟩ := item?_eq_some h
  have hlt : i < items.length := (List.getElem?_eq_some_iff.mp hget).1
  simp [item?, hread, hlt]

theorem item?_set_of_ne (items : List Json) (h : Text.readUnsigned t.toList ≠ some i) (new : Json) :
    item? t (items.set i new) = item? t items := by
  unfold item?
  cases hread : Text.readUnsigned t.toList with
  | none => rfl
  | some j =>
    have hij : i ≠ j := fun heq => h (heq ▸ hread)
    simp only [Option.bind_eq_bind, Option.bind_some, List.getElem?_set_ne hij]

end

/-! ## Two edits, one after the other

In one field or item they are two edits of what stands there. In different
ones neither sees the other. -/

section

variable {s t : String} {p q : List String}

/-- Two edits in the same field, and in different fields, of an object; two
lemmas below, the same of an array. -/
theorem edited_bind_obj_same (fields : List (String × Json)) :
    (edited edit (s :: p) (.obj fields)).bind (edited other (s :: q)) =
      ((edited edit p ((Fields.get? s fields).getD .null)).bind (edited other q)).map fun new =>
        .obj (Fields.insert s new fields) := by
  rw [edited_obj, Option.bind_map, Option.map_bind]
  exact congrArg _ (funext fun _ => edited_insert_same)

theorem edited_bind_obj_of_ne (hne : s ≠ t) (fields : List (String × Json)) :
    (edited edit (s :: p) (.obj fields)).bind (edited other (t :: q)) =
      (edited edit p ((Fields.get? s fields).getD .null)).bind fun v =>
        (edited other q ((Fields.get? t fields).getD .null)).map fun w =>
          .obj (Fields.insert t w (Fields.insert s v fields)) := by
  rw [edited_obj, Option.bind_map]
  exact congrArg _ (funext fun _ => edited_insert_of_ne hne)

/-- Two edits in the same item of an array. -/
theorem edited_bind_arr_same (items : List Json) :
    (edited edit (s :: p) (.arr items)).bind (edited other (s :: q)) =
      (item? s items).bind fun found =>
        ((edited edit p found.2).bind (edited other q)).map fun new =>
          .arr (items.set found.1 new) := by
  rw [edited_arr]
  cases hfound : item? s items with
  | none => rfl
  | some found =>
    rw [Option.bind_some, Option.bind_some, Option.bind_map, Option.map_bind]
    refine congrArg _ (funext fun new => ?_)
    simp [edited_arr, item?_set_same hfound]

/-- Two edits in different items of an array. -/
theorem edited_bind_arr_of_apart (hst : Apart s t) (items : List Json) :
    (edited edit (s :: p) (.arr items)).bind (edited other (t :: q)) =
      (item? s items).bind fun a => (item? t items).bind fun b =>
        (edited edit p a.2).bind fun v => (edited other q b.2).map fun w =>
          .arr ((items.set a.1 v).set b.1 w) := by
  rw [edited_arr]
  cases hfound : item? s items with
  | none => rfl
  | some a =>
    have hother := item?_set_of_ne items (hst.position_ne a.1 (item?_eq_some hfound).1)
    rw [Option.bind_some, Option.bind_some, Option.bind_map]
    cases hsecond : item? t items with
    | none => simp [edited_arr, hother, hsecond]
    | some b =>
      refine congrArg _ (funext fun new => ?_)
      rw [Function.comp_apply, edited_arr, hother, hsecond, Option.bind_some]

end

/-- Edits of separated places commute. -/
theorem edited_comm {p q : List String} (h : Separated p q) (doc : Json) :
    (edited edit p doc).bind (edited other q) = (edited other q doc).bind (edited edit p) := by
  induction p generalizing q doc with
  | nil => exact absurd List.nil_prefix h.not_prefix
  | cons s p ih =>
    cases q with
    | nil => exact absurd List.nil_prefix h.not_prefix'
    | cons t q =>
      have hobj (fields : List (String × Json)) :
          (edited edit (s :: p) (.obj fields)).bind (edited other (t :: q)) =
            (edited other (t :: q) (.obj fields)).bind (edited edit (s :: p)) := by
        -- the first segments agree, and the paths part later, or they name different
        -- keys
        rcases h.head with rfl | hst
        · rw [edited_bind_obj_same, edited_bind_obj_same, ih h.tail]
        · rw [edited_bind_obj_of_ne hst.ne, edited_bind_obj_of_ne hst.ne.symm]
          simp only [Option.map_eq_bind]
          rw [Option.bind_comm]
          simp only [Function.comp_def, Fields.insert_comm hst.ne]
      have harr (items : List Json) :
          (edited edit (s :: p) (.arr items)).bind (edited other (t :: q)) =
            (edited other (t :: q) (.arr items)).bind (edited edit (s :: p)) := by
        rcases h.head with rfl | hst
        · rw [edited_bind_arr_same, edited_bind_arr_same]
          simp only [ih h.tail]
        · rw [edited_bind_arr_of_apart hst, edited_bind_arr_of_apart hst.symm]
          cases hs : item? s items with
          | none => simp
          | some a =>
            cases ht : item? t items with
            | none => rfl
            | some b =>
              -- separated segments never spell one position
              have hne : a.1 ≠ b.1 := fun heq =>
                hst.position_ne a.1 (item?_eq_some hs).1 (heq ▸ (item?_eq_some ht).1)
              simp only [Option.bind_some, Option.map_eq_bind]
              rw [Option.bind_comm]
              simp only [Function.comp_def, List.set_comm _ _ hne]
      -- an edit inside `null` makes an object; other values have no inside
      cases doc with
      | null =>
        rw [edited_null, edited_null]
        exact hobj []
      | obj fields => exact hobj fields
      | arr items => exact harr items
      | bool | int | float | str => rfl

/-! ## Edits of one place -/

/-- What an edit finds at a place: `null` where nothing stands yet, and no
place where no path can lead. -/
def place? : List String → Json → Option Json
  | [], doc => some doc
  | _ :: rest, .null => place? rest .null
  | segment :: rest, .obj fields => place? rest ((Fields.get? segment fields).getD .null)
  | segment :: rest, .arr items => (item? segment items).bind fun found => place? rest found.2
  | _ :: _, .bool _ | _ :: _, .int _ | _ :: _, .float _ | _ :: _, .str _ => none

/-- Edits of one place commute if they do at what stands there. -/
theorem edited_comm_place {p : List String} {doc : Json}
    (h : ∀ v, place? p doc = some v →
      (edit v).toOption.bind (edited other []) = (other v).toOption.bind (edited edit [])) :
    (edited edit p doc).bind (edited other p) = (edited other p doc).bind (edited edit p) := by
  induction p generalizing doc with
  | nil =>
    rw [edited_nil, edited_nil]
    exact h doc rfl
  | cons s p ih =>
    cases doc with
    | null =>
      rw [edited_null, edited_null, edited_bind_obj_same, edited_bind_obj_same]
      exact congrArg (Option.map _) (ih h)
    | obj fields =>
      rw [edited_bind_obj_same, edited_bind_obj_same, ih h]
    | arr items =>
      rw [edited_bind_arr_same, edited_bind_arr_same]
      cases hfound : item? s items with
      | none => rfl
      | some found =>
        have hthere (v : Json) (hv : place? p found.2 = some v) :=
          h v (by rw [place?, hfound, Option.bind_some, hv])
        rw [Option.bind_some, Option.bind_some, ih hthere]
    | bool | int | float | str => rfl

/-- A counter that is not below 0 stays so, as far as 64 bits reach. -/
theorem add_eq {v : Json} {k n : Int} (hv : counter v = .ok k) (hk : 0 ≤ k) (hn : 0 ≤ n) :
    add n v = .ok (.int (min (k + n) (2 ^ 63 - 1))) := by
  have hsum : saturate (k + n) = min (k + n) (2 ^ 63 - 1) := by
    rw [saturate]
    omega
  have hadd : add n v = if saturate (k + n) < 0 then .error .negative
      else .ok (.int (saturate (k + n))) := by
    rw [add, hv]
    rfl
  rw [hadd, hsum, if_neg (by omega)]

theorem counter_min {k : Int} (hk : 0 ≤ k) :
    counter (.int (min k (2 ^ 63 - 1))) = .ok (min k (2 ^ 63 - 1)) := by
  rw [counter, if_pos (by omega)]

/-- Two amounts that are not negative add up to the bound. -/
theorem add_bind_add {v : Json} {k n m : Int} (hv : counter v = .ok k) (hk : 0 ≤ k) (hn : 0 ≤ n)
    (hm : 0 ≤ m) :
    (add n v).toOption.bind (edited (add m) []) =
      some (.int (min (k + n + m) (2 ^ 63 - 1))) := by
  have hsecond : add m (.int (min (k + n) (2 ^ 63 - 1))) =
      .ok (.int (min (min (k + n) (2 ^ 63 - 1) + m) (2 ^ 63 - 1))) :=
    add_eq (counter_min (by omega)) (by omega) hm
  have hsum : min (min (k + n) (2 ^ 63 - 1) + m) (2 ^ 63 - 1) =
      min (k + n + m) (2 ^ 63 - 1) := by omega
  rw [add_eq hv hk hn]
  show edited (add m) [] _ = _
  rw [edited_nil, hsecond, hsum]
  rfl

/-- So their order does not matter, at a counter that is not negative or at
anything else. -/
theorem add_bind_comm {v : Json} {n m : Int} (hv : ∀ k, v = .int k → 0 ≤ k) (hn : 0 ≤ n)
    (hm : 0 ≤ m) :
    (add n v).toOption.bind (edited (add m) []) =
      (add m v).toOption.bind (edited (add n) []) := by
  cases hcount : counter v with
  | error fault =>
    have hrefused (n : Int) : add n v = .error fault := by
      rw [add, hcount]
      rfl
    rw [hrefused, hrefused]
    rfl
  | ok k =>
    have hk : 0 ≤ k := by
      cases v with
      | null =>
        obtain rfl := Except.ok.inj hcount
        exact Int.le_refl 0
      | int i =>
        rw [counter] at hcount
        split at hcount
        · exact Except.ok.inj hcount ▸ hv i rfl
        · cases hcount
      | _ => cases hcount
    rw [add_bind_add hcount hk hn hm, add_bind_add hcount hk hm hn, Int.add_right_comm]

/-! ## Patches -/

theorem apply_eq_ok_iff {p : Patch} {doc new : Json} :
    p.apply doc = .ok new ↔ edited (Patch.edit p.op) (segments p.path) doc = some new := by
  unfold apply run edited
  rcases editAt (Patch.edit p.op) (segments p.path) doc with ⟨v, _ | fault⟩ <;> simp

/-- Two patches are accepted just if their edits are, one after the other. -/
theorem applyAll_pair_eq_ok_iff {p q : Patch} {doc new : Json} :
    applyAll [p, q] doc = .ok new ↔
      (edited (Patch.edit p.op) (segments p.path) doc).bind
        (edited (Patch.edit q.op) (segments q.path)) = some new := by
  have hchain : applyAll [p, q] doc = (p.apply doc).bind q.apply := by
    simp only [applyAll, List.foldlM_cons, List.foldlM_nil, bind_pure]
    rfl
  rw [hchain, Option.bind_eq_some_iff]
  cases hp : p.apply doc with
  | ok next =>
    simp only [apply_eq_ok_iff.mp hp, Option.some.injEq, exists_eq_left']
    exact apply_eq_ok_iff
  | error e =>
    refine ⟨fun h => (by cases h), ?_⟩
    rintro ⟨next, hnext, -⟩
    cases hp.symm.trans (apply_eq_ok_iff.mpr hnext)

/-- Two patches of a document that do not get in the way of each other. -/
inductive Independent (p q : Patch) (doc : Json) : Prop where
  | separated (h : Separated (segments p.path) (segments q.path))
  | counter {n m : Int64} (path : p.path = q.path) (op : p.op = .increment n)
      (op' : q.op = .increment m) (amount : 0 ≤ n.toInt) (amount' : 0 ≤ m.toInt)
      (notNegative : ∀ k, place? (segments p.path) doc = some (.int k) → 0 ≤ k)

/-- Independent patches can be applied in either order. For separated places
the two edits are made side by side below their common path (`edited_comm`);
two increments of one counter both come to its sum, cut off at the same
bound. -/
theorem applyAll_comm {p q : Patch} {doc : Json} (h : Independent p q doc) (new : Json) :
    applyAll [p, q] doc = .ok new ↔ applyAll [q, p] doc = .ok new := by
  rw [applyAll_pair_eq_ok_iff, applyAll_pair_eq_ok_iff]
  cases h with
  | separated h => rw [edited_comm h]
  | counter path op op' amount amount' notNegative =>
    rw [← path, op, op', edited_comm_place fun v hv => ?_]
    exact add_bind_comm (fun k hk => notNegative k (hk ▸ hv)) amount amount'

/-- Two positions of an array, each spelled in a way of its own, and an
object that the second patch makes from `null`. -/
theorem sample_applyAll_comm :
    Independent ⟨"a.00", .set (.bool true)⟩ ⟨"a.+1.n", .increment 5⟩
        (.obj [("a", .arr [.null, .null])]) ∧
      applyAll [⟨"a.+1.n", .increment 5⟩, ⟨"a.00", .set (.bool true)⟩]
        (.obj [("a", .arr [.null, .null])]) =
          .ok (.obj [("a", .arr [.bool true, .obj [("n", .int 5)]])]) := by
  have hsegments : segments "a.00" = ["a", "00"] ∧ segments "a.+1.n" = ["a", "+1", "n"] := by
    decide +kernel
  have hparts : Apart "00" "+1" := by
    refine ⟨by decide, fun i h h' => ?_⟩
    rw [show Text.readUnsigned "00".toList = some 0 by decide +kernel] at h
    rw [show Text.readUnsigned "+1".toList = some 1 by decide +kernel] at h'
    cases h
    cases h'
  have hindependent : Independent ⟨"a.00", .set (.bool true)⟩ ⟨"a.+1.n", .increment 5⟩
      (.obj [("a", .arr [.null, .null])]) := by
    refine .separated ?_
    show Separated (segments "a.00") (segments "a.+1.n")
    rw [hsegments.1, hsegments.2]
    exact (hparts.separated [] ["n"]).cons "a"
  exact ⟨hindependent, (applyAll_comm hindependent _).mp (by decide +kernel)⟩

end Patch

end Workflow
