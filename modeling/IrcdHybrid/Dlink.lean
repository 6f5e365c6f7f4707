import IrcdHybrid.DoublyLinked
import Mathlib.Data.BitVec
import Mathlib.Data.List.Find

/-!
The lists of `list.c`. A `dlink_node` sits inside what it is on a list for; a list has
the addresses of its first and of its last node and counts its nodes in an `unsigned int`. The
memory is kept field by field. A step that would follow a null pointer, or that fails its
`assert`, has no outcome.
-/

namespace IrcdHybrid.Dlink

open Function DoublyLinked

/-- The fields of the `dlink_node` at each address `ν`, and of the `dlink_list` at each `ι`. -/
structure Memory (ν δ ι : Type*) where
  data : ν → δ
  prev : ν → Option ν
  next : ν → Option ν
  head : ι → Option ν
  tail : ι → Option ν
  length : ι → BitVec 32

variable {ν δ ι : Type*} [DecidableEq ν] [DecidableEq δ] [DecidableEq ι]

/-- A node whose data is set becomes the head. -/
def pushHead (m : ν) (list : ι) (mem : Memory ν δ ι) : Memory ν δ ι :=
  let mem := { mem with
    prev := update mem.prev m none
    next := update mem.next m (mem.head list) }
  let mem :=
    match mem.head list with
    | some head => { mem with prev := update mem.prev head (some m) }
    | none =>
      if mem.tail list = none then { mem with tail := update mem.tail list (some m) } else mem
  { mem with
    head := update mem.head list (some m)
    length := update mem.length list (mem.length list + 1) }

def dlinkAdd (data : δ) (m : ν) (list : ι) (mem : Memory ν δ ι) : Memory ν δ ι :=
  pushHead m list { mem with data := update mem.data m data }

def dlinkAddBefore (b : ν) (data : δ) (m : ν) (list : ι) (mem : Memory ν δ ι) :
    Option (Memory ν δ ι) :=
  if mem.head list = some b then some (dlinkAdd data m list mem)
  else
    let mem := { mem with data := update mem.data m data }
    match mem.prev b with
    | none => none
    | some p =>
      let mem := { mem with next := update mem.next p (some m) }
      let mem := { mem with prev := update mem.prev m (mem.prev b) }
      let mem := { mem with prev := update mem.prev b (some m) }
      let mem := { mem with next := update mem.next m (some b) }
      some { mem with length := update mem.length list (mem.length list + 1) }

def dlinkAddTail (data : δ) (m : ν) (list : ι) (mem : Memory ν δ ι) : Memory ν δ ι :=
  let mem := { mem with
    data := update mem.data m data
    next := update mem.next m none
    prev := update mem.prev m (mem.tail list) }
  let mem :=
    match mem.tail list with
    | some tail => { mem with next := update mem.next tail (some m) }
    | none =>
      if mem.head list = none then { mem with head := update mem.head list (some m) } else mem
  { mem with
    tail := update mem.tail list (some m)
    length := update mem.length list (mem.length list + 1) }

/-- The neighbours of a node, or the ends of its list, are made to pass over it. -/
def unlink (m : ν) (list : ι) (mem : Memory ν δ ι) : Option (Memory ν δ ι) :=
  let forth :=
    match mem.next m with
    | some n => some { mem with prev := update mem.prev n (mem.prev m) }
    | none =>
      if mem.tail list = some m then
        some { mem with tail := update mem.tail list (mem.prev m) }
      else none
  forth.bind fun mem =>
    match mem.prev m with
    | some p => some { mem with next := update mem.next p (mem.next m) }
    | none =>
      if mem.head list = some m then
        some { mem with head := update mem.head list (mem.next m) }
      else none

def dlinkDelete (m : ν) (list : ι) (mem : Memory ν δ ι) : Option (Memory ν δ ι) :=
  (unlink m list mem).map fun mem => { mem with
    next := update mem.next m none
    prev := update mem.prev m none
    length := update mem.length list (mem.length list - 1) }

def dlinkFind (fuel : ℕ) (list : ι) (data : δ) (mem : Memory ν δ ι) : Option (Option ν) :=
  walk mem.next (fun node => decide (mem.data node = data)) fuel (mem.head list)

def dlinkMoveList (src dst : ι) (mem : Memory ν δ ι) : Option (Memory ν δ ι) :=
  match mem.head src with
  | none => some mem
  | some first =>
    match mem.head dst with
    | none =>
      let mem := { mem with
        head := update mem.head dst (mem.head src)
        tail := update mem.tail dst (mem.tail src) }
      let mem := { mem with
        head := update mem.head src none
        tail := update mem.tail src none }
      let mem := { mem with length := update mem.length dst (mem.length src) }
      some { mem with length := update mem.length src 0 }
    | some head =>
      match mem.tail src with
      | none => none
      | some last =>
        let mem := { mem with next := update mem.next last (mem.head dst) }
        let mem := { mem with prev := update mem.prev first (mem.prev head) }
        let mem := { mem with prev := update mem.prev head (mem.tail src) }
        let mem := { mem with head := update mem.head dst (mem.head src) }
        let mem := { mem with
          head := update mem.head src none
          tail := update mem.tail src none }
        let mem := { mem with
          length := update mem.length dst (mem.length dst + mem.length src) }
        some { mem with length := update mem.length src 0 }

def dlinkMoveNode (m : ν) (listDel listAdd : ι) (mem : Memory ν δ ι) :
    Option (Memory ν δ ι) :=
  (unlink m listDel mem).map fun mem =>
    let mem := pushHead m listAdd mem
    { mem with length := update mem.length listDel (mem.length listDel - 1) }

def dlinkFindDelete (fuel : ℕ) (list : ι) (data : δ) (mem : Memory ν δ ι) :
    Option (Memory ν δ ι × Option ν) :=
  (dlinkFind fuel list data mem).bind fun found =>
    match found with
    | none => some (mem, none)
    | some m => (dlinkDelete m list mem).map fun mem => (mem, some m)

/-- The nodes with their data. -/
def nodes (entries : List (ν × δ)) : List ν := entries.map Prod.fst

/-- The list runs through these nodes, both ways. -/
structure Strung (mem : Memory ν δ ι) (list : ι) (xs : List ν) : Prop where
  nodup : xs.Nodup
  linked : Linked mem.prev mem.next none xs none
  head : mem.head list = xs.head?
  tail : mem.tail list = xs.getLast?

/-- The list is the sequence of the nodes with their data, and has counted them. -/
structure Represents (mem : Memory ν δ ι) (list : ι) (entries : List (ν × δ)) : Prop where
  strung : Strung mem list (nodes entries)
  data : ∀ e ∈ entries, mem.data e.1 = e.2
  length : mem.length list = BitVec.ofNat 32 entries.length

/-- Only these nodes and these lists may be other than before. -/
structure Kept (xs : List ν) (lists : List ι) (mem mem' : Memory ν δ ι) : Prop where
  prev : ∀ x, x ∉ xs → mem'.prev x = mem.prev x
  next : ∀ x, x ∉ xs → mem'.next x = mem.next x
  data : ∀ x, x ∉ xs → mem'.data x = mem.data x
  head : ∀ list, list ∉ lists → mem'.head list = mem.head list
  tail : ∀ list, list ∉ lists → mem'.tail list = mem.tail list
  length : ∀ list, list ∉ lists → mem'.length list = mem.length list

section Kept

omit [DecidableEq ν] [DecidableEq δ] [DecidableEq ι]

variable (mem mem' mem'' : Memory ν δ ι)

theorem kept_mono (xs ys : List ν) (lists lists' : List ι) (h : Kept xs lists mem mem')
    (hxs : xs ⊆ ys) (hlists : lists ⊆ lists') : Kept ys lists' mem mem' where
  prev x hx := h.prev x fun hy => hx (hxs hy)
  next x hx := h.next x fun hy => hx (hxs hy)
  data x hx := h.data x fun hy => hx (hxs hy)
  head l hl := h.head l fun hm => hl (hlists hm)
  tail l hl := h.tail l fun hm => hl (hlists hm)
  length l hl := h.length l fun hm => hl (hlists hm)

theorem kept_trans (xs : List ν) (lists : List ι) (h : Kept xs lists mem mem')
    (h' : Kept xs lists mem' mem'') : Kept xs lists mem mem'' where
  prev x hx := (h'.prev x hx).trans (h.prev x hx)
  next x hx := (h'.next x hx).trans (h.next x hx)
  data x hx := (h'.data x hx).trans (h.data x hx)
  head l hl := (h'.head l hl).trans (h.head l hl)
  tail l hl := (h'.tail l hl).trans (h.tail l hl)
  length l hl := (h'.length l hl).trans (h.length l hl)

theorem strung_congr (list : ι) (xs : List ν) (h : Strung mem list xs)
    (hprev : ∀ x ∈ xs, mem'.prev x = mem.prev x) (hnext : ∀ x ∈ xs, mem'.next x = mem.next x)
    (hhead : mem'.head list = mem.head list) (htail : mem'.tail list = mem.tail list) :
    Strung mem' list xs where
  nodup := h.nodup
  linked := linked_congr _ _ _ _ none none xs h.linked hprev hnext
  head := hhead.trans h.head
  tail := htail.trans h.tail

theorem represents_kept (es : List (ν × δ)) (ys : List ν) (list : ι) (lists : List ι)
    (h : Represents mem list es) (hkept : Kept ys lists mem mem')
    (hes : ∀ x ∈ nodes es, x ∉ ys) (hlist : list ∉ lists) : Represents mem' list es where
  strung := strung_congr mem mem' list (nodes es) h.strung (fun x hx => hkept.prev x (hes x hx))
    (fun x hx => hkept.next x (hes x hx)) (hkept.head list hlist) (hkept.tail list hlist)
  data e he := (hkept.data e.1 (hes e.1 (List.mem_map_of_mem he))).trans (h.data e he)
  length := (hkept.length list hlist).trans h.length

end Kept

section Steps

omit [DecidableEq δ]

/-- What comes before a node is linked with what comes behind it. -/
def joined (xs ys : List ν) (list : ι) (mem : Memory ν δ ι) : Memory ν δ ι := { mem with
  prev := relink mem.prev ys.head? xs.getLast?
  next := relink mem.next xs.getLast? ys.head?
  head := update mem.head list (xs ++ ys).head?
  tail := update mem.tail list (xs ++ ys).getLast? }

variable (mem : Memory ν δ ι) (list : ι)

theorem unlink_eq (xs ys : List ν) (m : ν) (h : Strung mem list (xs ++ m :: ys)) :
    unlink m list mem = some (joined xs ys list mem) := by
  have hm := linked_neighbours _ _ none none xs ys m h.linked
  rw [Option.or_none, Option.or_none] at hm
  obtain ⟨-, hmys, -⟩ := List.nodup_append.mp h.nodup
  have hmys : m ∉ ys := (List.nodup_cons.mp hmys).1
  have hforth : (match mem.next m with
      | some n => some { mem with prev := update mem.prev n (mem.prev m) }
      | none =>
        if mem.tail list = some m then
          some { mem with tail := update mem.tail list (mem.prev m) }
        else none) = some { mem with
      prev := relink mem.prev ys.head? xs.getLast?
      tail := update mem.tail list (xs ++ ys).getLast? } := by
    rw [hm.1, hm.2]
    cases ys with
    | nil =>
      have htail : mem.tail list = some m := by simp [h.tail]
      simp [htail, relink]
    | cons y ys =>
      have htail : mem.tail list = (xs ++ y :: ys).getLast? := by
        rw [h.tail, List.getLast?_append, List.getLast?_append, List.getLast?_cons_cons]
      simp [relink, ← htail]
  unfold unlink
  rw [hforth]
  have hprev : relink mem.prev ys.head? xs.getLast? m = xs.getLast? := by
    rw [relink_apply, if_neg fun heq => hmys (List.mem_of_head? heq)]
    exact hm.1
  simp only [Option.bind_some, hprev, hm.2, joined]
  rcases List.eq_nil_or_concat xs with rfl | ⟨pre, p, hxs⟩
  · have hhead : mem.head list = some m := h.head
    simp [hhead, relink]
  · have hhead : mem.head list = (xs ++ ys).head? := by
      rw [h.head, hxs, List.concat_eq_append]
      cases pre <;> rfl
    have hlast : xs.getLast? = some p := by simp [hxs]
    rw [← hhead, update_eq_self, hlast]
    rfl

theorem joined_kept (xs ys : List ν) :
    Kept (xs ++ ys) [list] mem (joined xs ys list mem) where
  prev x hx := by
    dsimp only [joined]
    rw [relink_apply, if_neg]
    exact fun heq => hx (List.mem_append_right xs (List.mem_of_head? heq))
  next x hx := by
    dsimp only [joined]
    rw [relink_apply, if_neg]
    exact fun heq => hx (List.mem_append_left ys (List.mem_of_getLast? heq))
  data x _ := rfl
  head l hl := update_of_ne (fun heq => hl (List.mem_singleton.mpr heq)) _ _
  tail l hl := update_of_ne (fun heq => hl (List.mem_singleton.mpr heq)) _ _
  length l _ := rfl

/-- The rest of the list is strung together again; the node itself still points into it. -/
theorem joined_strung (xs ys : List ν) (m : ν) (h : Strung mem list (xs ++ m :: ys)) :
    Strung (joined xs ys list mem) list (xs ++ ys) := by
  obtain ⟨hxs, hmys, hdisjoint⟩ := List.nodup_append.mp h.nodup
  obtain ⟨hm, hys⟩ := List.nodup_cons.mp hmys
  obtain ⟨hleft, hright⟩ := (linked_append _ _ none none xs (m :: ys)).mp h.linked
  have hnodup : (xs ++ ys).Nodup := List.nodup_append.mpr
    ⟨hxs, hys, fun x hx y hy => hdisjoint x hx y (List.mem_cons_of_mem m hy)⟩
  refine ⟨hnodup, (linked_append _ _ none none xs ys).mpr ⟨?_, ?_⟩, update_self .., update_self ..⟩
  · refine linked_end mem.prev mem.next _ _ none _ _ xs hxs hleft (fun x hx => ?_) fun x hx => ?_
    · dsimp only [joined]
      rw [relink_apply, if_neg]
      intro heq
      exact hdisjoint x hx x (List.mem_cons_of_mem m (List.mem_of_head? heq)) rfl
    · dsimp only [joined]
      rw [relink_apply, Option.or_none]
  · refine linked_front mem.prev mem.next _ _ (some m) _ none ys hys hright.2.2 (fun x hx => ?_)
      fun x hx => ?_
    · dsimp only [joined]
      rw [relink_apply, Option.or_none]
    · dsimp only [joined]
      rw [relink_apply, if_neg]
      intro heq
      exact hdisjoint x (List.mem_of_getLast? heq) x (List.mem_cons_of_mem m hx) rfl

/-- What `pushHead` writes. -/
theorem pushHead_eq (xs : List ν) (m : ν) (h : Strung mem list xs) :
    pushHead m list mem = { mem with
      prev := relink (update mem.prev m none) xs.head? (some m)
      next := update mem.next m xs.head?
      head := update mem.head list (some m)
      tail := update mem.tail list (m :: xs).getLast?
      length := update mem.length list (mem.length list + 1) } := by
  unfold pushHead
  cases xs with
  | nil =>
    have hhead : mem.head list = none := h.head
    have htail : mem.tail list = none := h.tail
    simp [hhead, htail, relink]
  | cons x xs =>
    have hhead : mem.head list = some x := h.head
    have htail : mem.tail list = (m :: x :: xs).getLast? := by
      rw [h.tail, List.getLast?_cons_cons]
    rw [← htail, update_eq_self]
    simp [hhead, relink]

theorem pushHead_kept (xs : List ν) (m : ν) (h : Strung mem list xs) :
    Kept (m :: xs) [list] mem (pushHead m list mem) := by
  rw [pushHead_eq mem list xs m h]
  refine ⟨fun x hx => ?_, fun x hx => ?_, fun _ _ => rfl, fun l hl => ?_, fun l hl => ?_,
    fun l hl => ?_⟩
  · obtain ⟨hxm, hxs⟩ := List.ne_and_not_mem_of_not_mem_cons hx
    dsimp only
    rw [relink_apply, if_neg fun heq => hxs (List.mem_of_head? heq), update_of_ne hxm]
  · exact update_of_ne (List.ne_of_not_mem_cons hx) _ _
  · exact update_of_ne (List.ne_of_not_mem_cons hl) _ _
  · exact update_of_ne (List.ne_of_not_mem_cons hl) _ _
  · exact update_of_ne (List.ne_of_not_mem_cons hl) _ _

theorem pushHead_strung (xs : List ν) (m : ν) (h : Strung mem list xs) (hm : m ∉ xs) :
    Strung (pushHead m list mem) list (m :: xs) := by
  rw [pushHead_eq mem list xs m h]
  refine ⟨List.nodup_cons.mpr ⟨hm, h.nodup⟩, ⟨?_, ?_, ?_⟩, update_self .., update_self ..⟩
  · dsimp only
    rw [relink_apply, if_neg fun heq => hm (List.mem_of_head? heq), update_self]
  · rw [Option.or_none]
    exact update_self ..
  · have hne : ∀ x ∈ xs, x ≠ m := fun x hx heq => hm (heq ▸ hx)
    refine linked_front mem.prev mem.next _ _ none _ none xs h.nodup h.linked (fun x hx => ?_)
      fun x hx => update_of_ne (hne x hx) _ _
    dsimp only
    rw [relink_apply, update_of_ne (hne x hx)]

end Steps

section Operations

omit [DecidableEq δ]

variable (mem : Memory ν δ ι) (list : ι)

theorem count_succ (n : ℕ) : BitVec.ofNat 32 n + 1 = BitVec.ofNat 32 (n + 1) :=
  (BitVec.ofNat_add n 1).symm

theorem count_pred (n : ℕ) : BitVec.ofNat 32 (n + 1) - 1 = BitVec.ofNat 32 n := by
  rw [← count_succ, BitVec.add_sub_cancel]

theorem dlinkAdd_spec (es : List (ν × δ)) (data : δ) (m : ν) (h : Represents mem list es)
    (hm : m ∉ nodes es) :
    Represents (dlinkAdd data m list mem) list ((m, data) :: es) ∧
      Kept (m :: nodes es) [list] mem (dlinkAdd data m list mem) := by
  have hset : Strung { mem with data := update mem.data m data } list (nodes es) :=
    strung_congr mem _ list (nodes es) h.strung (fun _ _ => rfl) (fun _ _ => rfl) rfl rfl
  have hkept := pushHead_kept _ list (nodes es) m hset
  have hdata : (dlinkAdd data m list mem).data = update mem.data m data := by
    unfold dlinkAdd
    rw [pushHead_eq _ list (nodes es) m hset]
  have hlength : (dlinkAdd data m list mem).length =
      update mem.length list (mem.length list + 1) := by
    unfold dlinkAdd
    rw [pushHead_eq _ list (nodes es) m hset]
  refine ⟨⟨pushHead_strung _ list (nodes es) m hset hm, fun e he => ?_, ?_⟩, hkept.prev,
    hkept.next, fun x hx => ?_, hkept.head, hkept.tail, hkept.length⟩
  · rw [hdata]
    rcases List.mem_cons.mp he with rfl | he
    · exact update_self ..
    · have hne : e.1 ≠ m := fun heq => hm (heq ▸ List.mem_map_of_mem he)
      rw [update_of_ne hne]
      exact h.data e he
  · rw [hlength, update_self, h.length, count_succ, List.length_cons]
  · rw [hdata, update_of_ne (List.ne_of_not_mem_cons hx)]

/-- What `dlinkAddTail` writes. -/
theorem dlinkAddTail_eq (xs : List ν) (data : δ) (m : ν) (h : Strung mem list xs) :
    dlinkAddTail data m list mem = { mem with
      data := update mem.data m data
      prev := update mem.prev m xs.getLast?
      next := relink (update mem.next m none) xs.getLast? (some m)
      head := update mem.head list (xs ++ [m]).head?
      tail := update mem.tail list (some m)
      length := update mem.length list (mem.length list + 1) } := by
  have hhead := h.head
  have htail := h.tail
  unfold dlinkAddTail
  dsimp only
  cases hlast : xs.getLast? with
  | none =>
    rw [hlast] at htail
    rw [List.getLast?_eq_none_iff.mp hlast] at hhead ⊢
    have hhead : mem.head list = none := hhead
    simp [hhead, htail, relink]
  | some last =>
    have hsame : (xs ++ [m]).head? = mem.head list := by
      obtain ⟨pre, hpre⟩ := List.getLast?_eq_some_iff.mp hlast
      rw [hhead, hpre]
      cases pre <;> rfl
    rw [hsame, update_eq_self, htail, hlast]
    rfl

theorem dlinkAddTail_spec (es : List (ν × δ)) (data : δ) (m : ν) (h : Represents mem list es)
    (hm : m ∉ nodes es) :
    Represents (dlinkAddTail data m list mem) list (es ++ [(m, data)]) ∧
      Kept (m :: nodes es) [list] mem (dlinkAddTail data m list mem) := by
  rw [dlinkAddTail_eq mem list (nodes es) data m h.strung]
  have hne : ∀ x ∈ nodes es, x ≠ m := fun x hx hxm => hm (hxm ▸ hx)
  have hmap : nodes (es ++ [(m, data)]) = nodes es ++ [m] := List.map_append
  refine ⟨⟨⟨?_, ?_, ?_, ?_⟩, fun e he => ?_, ?_⟩, ?_⟩
  · rw [hmap]
    exact List.nodup_append.mpr ⟨h.strung.nodup, List.nodup_singleton m, fun x hx y hy => by
      rw [List.mem_singleton.mp hy]
      exact hne x hx⟩
  · rw [hmap]
    refine (linked_append _ _ none none (nodes es) [m]).mpr ⟨?_, ?_, ?_, trivial⟩
    · refine linked_end mem.prev mem.next _ _ none none _ (nodes es) h.strung.nodup
        h.strung.linked (fun x hx => update_of_ne (hne x hx) _ _) fun x hx => ?_
      dsimp only
      rw [relink_apply, update_of_ne (hne x hx)]
      rfl
    · rw [Option.or_none]
      exact update_self ..
    · have hlast : ¬ (nodes es).getLast? = some m := fun hlast =>
        hm (List.mem_of_getLast? hlast)
      dsimp only
      rw [relink_apply, if_neg hlast, update_self]
      rfl
  · rw [hmap]
    exact update_self ..
  · rw [hmap, List.getLast?_concat]
    exact update_self ..
  · rcases List.mem_append.mp he with he | he
    · exact (update_of_ne (hne e.1 (List.mem_map_of_mem he)) _ _).trans (h.data e he)
    · rw [List.mem_singleton.mp he]
      exact update_self ..
  · dsimp only
    rw [update_self, h.length, count_succ, List.length_append, List.length_singleton]
  · refine ⟨fun x hx => ?_, fun x hx => ?_, fun x hx => ?_, fun l hl => ?_, fun l hl => ?_,
      fun l hl => ?_⟩
    · exact update_of_ne (List.ne_of_not_mem_cons hx) _ _
    · obtain ⟨hxm, hxs⟩ := List.ne_and_not_mem_of_not_mem_cons hx
      dsimp only
      rw [relink_apply, if_neg fun hlast => hxs (List.mem_of_getLast? hlast), update_of_ne hxm]
    · exact update_of_ne (List.ne_of_not_mem_cons hx) _ _
    · exact update_of_ne (List.ne_of_not_mem_cons hl) _ _
    · exact update_of_ne (List.ne_of_not_mem_cons hl) _ _
    · exact update_of_ne (List.ne_of_not_mem_cons hl) _ _

/-- The entries after one has been set before another. -/
def insertBefore (b : ν) (e : ν × δ) (es : List (ν × δ)) : List (ν × δ) :=
  es.takeWhile (fun x => decide (x.1 ≠ b)) ++ e :: es.dropWhile (fun x => decide (x.1 ≠ b))

theorem insertBefore_eq (b : ν) (d : δ) (e : ν × δ) (pre post : List (ν × δ))
    (hb : b ∉ nodes pre) :
    insertBefore b e (pre ++ (b, d) :: post) = pre ++ e :: (b, d) :: post := by
  have hpre : ∀ x ∈ pre, decide (x.1 ≠ b) = true := fun x hx =>
    decide_eq_true fun heq => hb (heq ▸ List.mem_map_of_mem hx)
  unfold insertBefore
  rw [List.takeWhile_append_of_pos hpre, List.dropWhile_append_of_pos hpre]
  simp

/-- A node is put between `p` and `b`. -/
def inserted (p b : ν) (data : δ) (m : ν) (list : ι) (mem : Memory ν δ ι) : Memory ν δ ι :=
  { mem with
    data := update mem.data m data
    prev := update (update mem.prev m (some p)) b (some m)
    next := update (update mem.next p (some m)) m (some b)
    length := update mem.length list (mem.length list + 1) }

theorem inserted_strung (xs ys : List ν) (p b : ν) (data : δ) (m : ν)
    (h : Strung mem list (xs ++ b :: ys)) (hp : xs.getLast? = some p) (hm : m ∉ xs ++ b :: ys) :
    Strung (inserted p b data m list mem) list (xs ++ m :: b :: ys) := by
  have hother : ∀ x ∈ xs ++ b :: ys, x ≠ m := fun x hx heq => hm (heq ▸ hx)
  obtain ⟨hxs, hys, hdisjoint⟩ := List.nodup_append.mp h.nodup
  obtain ⟨hleft, hright⟩ := (linked_append _ _ none none xs (b :: ys)).mp h.linked
  refine ⟨?_, (linked_append _ _ none none _ _).mpr ⟨?_, ?_, update_self .., ?_⟩, ?_, ?_⟩
  · refine List.nodup_append.mpr ⟨hxs, List.nodup_cons.mpr ⟨fun hmem => hm
      (List.mem_append_right _ hmem), hys⟩, fun x hx y hy => ?_⟩
    rcases List.mem_cons.mp hy with rfl | hy
    · exact hother x (List.mem_append_left _ hx)
    · exact hdisjoint x hx y hy
  · refine linked_end mem.prev mem.next _ _ none _ _ _ hxs hleft (fun x hx => ?_) fun x hx => ?_
    · have hxb : x ≠ b := hdisjoint x hx b List.mem_cons_self
      exact (update_of_ne hxb _ _).trans (update_of_ne (hother x (List.mem_append_left _ hx)) _ _)
    · dsimp only [inserted]
      rw [update_of_ne (hother x (List.mem_append_left _ hx)), hp, update_apply]
      simp only [Option.some.injEq, List.head?_cons, Option.some_or, eq_comm]
  · have hmb : m ≠ b := (hother b (List.mem_append_right _ List.mem_cons_self)).symm
    dsimp only [inserted]
    rw [update_of_ne hmb, update_self, hp]
    rfl
  · refine linked_front mem.prev mem.next _ _ _ _ none _ hys hright (fun x hx => ?_)
      fun x hx => ?_
    · dsimp only [inserted]
      rw [update_apply, update_of_ne (hother x (List.mem_append_right _ hx))]
      simp only [Option.some.injEq, List.head?_cons, eq_comm]
    · have hxp : x ≠ p := fun heq => hdisjoint p (List.mem_of_getLast? hp) x hx heq.symm
      dsimp only [inserted]
      rw [update_of_ne (hother x (List.mem_append_right _ hx)), update_of_ne hxp]
  · have hhead : (xs ++ m :: b :: ys).head? = (xs ++ b :: ys).head? := by
      obtain ⟨front, rfl⟩ := List.getLast?_eq_some_iff.mp hp
      cases front <;> rfl
    exact h.head.trans hhead.symm
  · have hlast : (xs ++ m :: b :: ys).getLast? = (xs ++ b :: ys).getLast? := by
      rw [List.getLast?_append, List.getLast?_append, List.getLast?_cons_cons]
    exact h.tail.trans hlast.symm

theorem inserted_kept (xs ys : List ν) (p b : ν) (data : δ) (m : ν)
    (hp : xs.getLast? = some p) :
    Kept (m :: (xs ++ b :: ys)) [list] mem (inserted p b data m list mem) := by
  have hmem : ∀ x, x ∉ m :: (xs ++ b :: ys) → x ≠ m ∧ x ≠ p ∧ x ≠ b := by
    intro x hx
    obtain ⟨hxm, hx⟩ := List.ne_and_not_mem_of_not_mem_cons hx
    have hxs : x ∉ xs := fun hmem => hx (List.mem_append_left _ hmem)
    have hys : x ∉ b :: ys := fun hmem => hx (List.mem_append_right _ hmem)
    exact ⟨hxm, fun heq => hxs (heq ▸ List.mem_of_getLast? hp), List.ne_of_not_mem_cons hys⟩
  refine ⟨fun x hx => ?_, fun x hx => ?_, fun x hx => ?_, fun _ _ => rfl, fun _ _ => rfl,
    fun l hl => update_of_ne (List.ne_of_not_mem_cons hl) _ _⟩
  · exact (update_of_ne (hmem x hx).2.2 _ _).trans (update_of_ne (hmem x hx).1 _ _)
  · exact (update_of_ne (hmem x hx).1 _ _).trans (update_of_ne (hmem x hx).2.1 _ _)
  · exact update_of_ne (hmem x hx).1 _ _

theorem dlinkAddBefore_spec (pre post : List (ν × δ)) (b : ν) (d data : δ) (m : ν)
    (h : Represents mem list (pre ++ (b, d) :: post)) (hm : m ∉ nodes (pre ++ (b, d) :: post)) :
    ∃ mem', dlinkAddBefore b data m list mem = some mem' ∧
      Represents mem' list (pre ++ (m, data) :: (b, d) :: post) ∧
      Kept (m :: nodes (pre ++ (b, d) :: post)) [list] mem mem' := by
  have hmap : nodes (pre ++ (b, d) :: post) = nodes pre ++ b :: nodes post := List.map_append
  have hnew : nodes (pre ++ (m, data) :: (b, d) :: post) =
      nodes pre ++ m :: b :: nodes post := List.map_append
  have hlen : (pre ++ (m, data) :: (b, d) :: post).length = (pre ++ (b, d) :: post).length + 1 := by
    simp only [List.length_append, List.length_cons]
    omega
  have hstrung := h.strung
  rw [hmap] at hstrung hm
  have hb : b ∉ nodes pre := fun hmem =>
    (List.nodup_append.mp hstrung.nodup).2.2 b hmem b List.mem_cons_self rfl
  have hprev := (linked_neighbours _ _ none none (nodes pre) (nodes post) b hstrung.linked).1
  rw [Option.or_none] at hprev
  cases hlast : (nodes pre).getLast? with
  | none =>
    have hnil : pre = [] := List.map_eq_nil_iff.mp (List.getLast?_eq_none_iff.mp hlast)
    subst hnil
    have hhead : mem.head list = some b := hstrung.head
    obtain ⟨hrep, hkept⟩ := dlinkAdd_spec mem list ((b, d) :: post) data m h hm
    exact ⟨_, if_pos hhead, hrep, hkept⟩
  | some p =>
    have hne : mem.head list ≠ some b := by
      obtain ⟨front, hfront⟩ := List.getLast?_eq_some_iff.mp hlast
      rw [hstrung.head, hfront]
      rw [hfront] at hb
      cases front with
      | nil => exact fun heq => hb (Option.some.inj heq ▸ List.mem_cons_self)
      | cons x xs => exact fun heq => hb (Option.some.inj heq ▸ List.mem_cons_self)
    refine ⟨inserted p b data m list mem, ?_, ⟨?_, fun e he => ?_, ?_⟩, ?_⟩
    · unfold dlinkAddBefore
      rw [if_neg hne]
      simp only [hprev, hlast]
      rfl
    · rw [hnew]
      exact inserted_strung mem list _ _ p b data m hstrung hlast hm
    · have hcases : e = (m, data) ∨ e ∈ pre ++ (b, d) :: post := by
        simp only [List.mem_append, List.mem_cons] at he ⊢
        tauto
      rcases hcases with rfl | he
      · exact update_self ..
      · have hem : e.1 ≠ m := fun heq => hm (heq ▸ hmap ▸ List.mem_map_of_mem he)
        exact (update_of_ne hem _ _).trans (h.data e he)
    · dsimp only [inserted]
      rw [update_self, h.length, count_succ, hlen]
    · rw [hmap]
      exact inserted_kept mem list _ _ p b data m hlast

theorem dlinkDelete_spec (pre post : List (ν × δ)) (m : ν) (d : δ)
    (h : Represents mem list (pre ++ (m, d) :: post)) :
    ∃ mem', dlinkDelete m list mem = some mem' ∧ Represents mem' list (pre ++ post) ∧
      mem'.prev m = none ∧ mem'.next m = none ∧
      Kept (nodes (pre ++ (m, d) :: post)) [list] mem mem' := by
  have hmap : nodes (pre ++ (m, d) :: post) = nodes pre ++ m :: nodes post := List.map_append
  have hnew : nodes (pre ++ post) = nodes pre ++ nodes post := List.map_append
  have hlen : (pre ++ (m, d) :: post).length = (pre ++ post).length + 1 := by
    simp only [List.length_append, List.length_cons]
    omega
  have hstrung := h.strung
  rw [hmap] at hstrung
  have hjoined := joined_strung mem list (nodes pre) (nodes post) m hstrung
  have hkept := joined_kept mem list (nodes pre) (nodes post)
  have hne : ∀ x ∈ nodes pre ++ nodes post, x ≠ m := by
    have hmid := List.nodup_middle.mp hstrung.nodup
    exact fun x hx heq => (List.nodup_cons.mp hmid).1 (heq ▸ hx)
  refine ⟨_, congrArg (Option.map _) (unlink_eq mem list (nodes pre) (nodes post) m hstrung),
    ⟨?_, fun e he => h.data e ?_, ?_⟩, update_self .., update_self .., ?_⟩
  · rw [hnew]
    exact strung_congr _ _ list _ hjoined (fun x hx => update_of_ne (hne x hx) _ _)
      (fun x hx => update_of_ne (hne x hx) _ _) rfl rfl
  · rcases List.mem_append.mp he with he | he
    · exact List.mem_append_left _ he
    · exact List.mem_append_right _ (List.mem_cons_of_mem _ he)
  · have hlength : (joined (nodes pre) (nodes post) list mem).length list =
        BitVec.ofNat 32 ((pre ++ post).length + 1) := by
      rw [← hlen]
      exact h.length
    dsimp only
    rw [update_self, hlength, count_pred]
  · rw [hmap]
    have hsub : ∀ x, x ∉ nodes pre ++ m :: nodes post → x ≠ m ∧ x ∉ nodes pre ++ nodes post := by
      intro x hx
      refine ⟨fun heq => hx (heq ▸ List.mem_append_right _ List.mem_cons_self), fun hmem => hx ?_⟩
      rcases List.mem_append.mp hmem with hmem | hmem
      · exact List.mem_append_left _ hmem
      · exact List.mem_append_right _ (List.mem_cons_of_mem _ hmem)
    exact ⟨fun x hx => (update_of_ne (hsub x hx).1 _ _).trans (hkept.prev x (hsub x hx).2),
      fun x hx => (update_of_ne (hsub x hx).1 _ _).trans (hkept.next x (hsub x hx).2),
      fun _ _ => rfl, hkept.head, hkept.tail,
      fun l hl => update_of_ne (fun heq => hl (List.mem_singleton.mpr heq)) _ _⟩

omit [DecidableEq ν] [DecidableEq ι] in
/-- The first node with the data is found, the list being walked to its end at most. -/
theorem dlinkFind_spec [DecidableEq δ] (es : List (ν × δ)) (fuel : ℕ) (data : δ)
    (h : Represents mem list es) (hfuel : es.length ≤ fuel) :
    dlinkFind fuel list data mem =
      some ((es.find? fun e => decide (e.2 = data)).map Prod.fst) := by
  have hwalk := walk_linked _ mem.next (fun node => decide (mem.data node = data)) none (nodes es)
    fuel h.strung.linked ((List.length_map _).trans_le hfuel)
  have hfind : (nodes es).find? (fun node => decide (mem.data node = data)) =
      (es.find? fun e => decide (e.2 = data)).map Prod.fst := by
    unfold nodes
    rw [List.find?_map]
    congr 1
    refine List.find?_congr fun e he => ?_
    rw [Function.comp_apply, h.data e he]
  unfold dlinkFind
  rw [h.strung.head, hwalk, hfind]

theorem dlinkFindDelete_spec [DecidableEq δ] (es : List (ν × δ)) (data : δ)
    (h : Represents mem list es) :
    ∃ mem', (∀ fuel, es.length ≤ fuel → dlinkFindDelete fuel list data mem =
        some (mem', (es.find? fun e => decide (e.2 = data)).map Prod.fst)) ∧
      Represents mem' list (es.eraseP fun e => decide (e.2 = data)) ∧
      (∀ m, (es.find? fun e => decide (e.2 = data)).map Prod.fst = some m →
        mem'.prev m = none ∧ mem'.next m = none) ∧
      Kept (nodes es) [list] mem mem' := by
  have hfound := fun fuel => dlinkFind_spec mem list es fuel data h
  cases hfind : es.find? fun e => decide (e.2 = data) with
  | none =>
    have hnot : ∀ e ∈ es, ¬ decide (e.2 = data) = true := List.find?_eq_none.mp hfind
    refine ⟨mem, fun fuel hfuel => ?_, ?_, fun _ h => by simp at h, fun _ _ => rfl, fun _ _ => rfl,
      fun _ _ => rfl, fun _ _ => rfl, fun _ _ => rfl, fun _ _ => rfl⟩
    · unfold dlinkFindDelete
      rw [hfound fuel hfuel, hfind]
      rfl
    · rw [List.eraseP_of_forall_not hnot]
      exact h
  | some e =>
    obtain ⟨hdata, pre, post, rfl, hpre⟩ := List.find?_eq_some_iff_append.mp hfind
    have herase : (pre ++ e :: post).eraseP (fun e => decide (e.2 = data)) = pre ++ post := by
      rw [List.eraseP_append_right _ fun x hx => by simpa using hpre x hx,
        List.eraseP_cons_of_pos (p := fun e : ν × δ => decide (e.2 = data)) hdata]
    obtain ⟨mem', hdelete, hrep, hprev, hnext, hkept⟩ :=
      dlinkDelete_spec mem list pre post e.1 e.2 h
    refine ⟨mem', fun fuel hfuel => ?_, herase ▸ hrep, fun m hm => ?_, hkept⟩
    · unfold dlinkFindDelete
      rw [hfound fuel hfuel, hfind]
      simp [hdelete]
    · obtain rfl : e.1 = m := Option.some.inj hm
      exact ⟨hprev, hnext⟩

/-- Two lists become one. -/
def moved (xs ys : List ν) (src dst : ι) (mem : Memory ν δ ι) : Memory ν δ ι := { mem with
  prev := relink mem.prev ys.head? xs.getLast?
  next := relink mem.next xs.getLast? ys.head?
  head := update (update mem.head dst (xs ++ ys).head?) src none
  tail := update (update mem.tail dst (xs ++ ys).getLast?) src none
  length := update (update mem.length dst (mem.length dst + mem.length src)) src 0 }

theorem dlinkMoveList_eq (src dst : ι) (xs ys : List ν)
    (hsrc : Strung mem src xs) (hdst : Strung mem dst ys) (hapart : ∀ x ∈ xs, x ∉ ys)
    (hempty : xs = [] → mem.length src = 0) (hempty' : ys = [] → mem.length dst = 0) :
    dlinkMoveList src dst mem = some (moved xs ys src dst mem) := by
  have hsrchead := hsrc.head
  have hsrctail := hsrc.tail
  have hdsthead := hdst.head
  have hdsttail := hdst.tail
  -- the first node of either list has nothing before it, the last nothing behind it
  have hfirst : ∀ zs list, Strung mem list zs → ∀ z, zs.head? = some z → mem.prev z = none := by
    intro zs list hzs z hz
    obtain ⟨zs, rfl⟩ := List.head?_eq_some_iff.mp hz
    exact hzs.linked.1
  have hlast : ∀ z, xs.getLast? = some z → mem.next z = none := by
    intro z hz
    obtain ⟨pre, rfl⟩ := List.getLast?_eq_some_iff.mp hz
    exact (linked_neighbours _ _ none none pre [] z hsrc.linked).2
  unfold dlinkMoveList moved
  cases hx : xs.head? with
  | none =>
    obtain rfl : xs = [] := List.head?_eq_none_iff.mp hx
    have hsrchead : mem.head src = none := hsrchead
    have hsrctail : mem.tail src = none := hsrctail
    have hprev : relink mem.prev ys.head? none = mem.prev := by
      cases hy : ys.head? with
      | none => rfl
      | some y => exact update_eq_self_iff.mpr (hfirst ys dst hdst y hy).symm
    have hlength : update (update mem.length dst (mem.length dst + mem.length src)) src 0 =
        mem.length := by
      rw [hempty rfl, add_zero, update_eq_self]
      exact update_eq_self_iff.mpr (hempty rfl).symm
    have hhead : update (update mem.head dst ys.head?) src none = mem.head := by
      rw [← hdsthead, update_eq_self]
      exact update_eq_self_iff.mpr hsrchead.symm
    have htail : update (update mem.tail dst ys.getLast?) src none = mem.tail := by
      rw [← hdsttail, update_eq_self]
      exact update_eq_self_iff.mpr hsrctail.symm
    have hnext : relink mem.next none ys.head? = mem.next := rfl
    simp only [hsrchead, List.getLast?_nil, List.nil_append, hprev, hnext, hlength, hhead, htail]
  | some x =>
    rw [hx] at hsrchead
    obtain ⟨z, hz⟩ : ∃ z, xs.getLast? = some z := by
      cases hz : xs.getLast? with
      | some z => exact ⟨z, rfl⟩
      | none =>
        rw [List.getLast?_eq_none_iff.mp hz] at hx
        simp at hx
    rw [hz] at hsrctail
    cases hy : ys.head? with
    | none =>
      obtain rfl : ys = [] := List.head?_eq_none_iff.mp hy
      have hdsthead : mem.head dst = none := hdsthead
      have hnext : update mem.next z none = mem.next := update_eq_self_iff.mpr (hlast z hz).symm
      have hlength : mem.length dst + mem.length src = mem.length src := by
        rw [hempty' rfl, zero_add]
      simp only [hsrchead, hdsthead, hsrctail, List.append_nil, hx, hz, relink, hnext, hlength]
    | some y =>
      have hdsthead : mem.head dst = some y := hdsthead.trans hy
      have hxy : x ≠ y := fun heq =>
        hapart x (List.mem_of_head? hx) (heq ▸ List.mem_of_head? hy)
      have hprevx : update mem.prev x none = mem.prev :=
        update_eq_self_iff.mpr (hfirst xs src hsrc x hx).symm
      have hhead : (xs ++ ys).head? = some x := by
        rw [List.head?_append, hx, Option.some_or]
      have htail : (xs ++ ys).getLast? = mem.tail dst := by
        obtain ⟨front, rfl⟩ := List.head?_eq_some_iff.mp hy
        rw [hdsttail, List.getLast?_append, List.getLast?_cons, Option.some_or]
      simp only [hsrchead, hdsthead, hsrctail, hz, relink, hhead, htail,
        hfirst ys dst hdst y hy, hprevx, update_eq_self]

theorem dlinkMoveList_spec (src dst : ι) (es fs : List (ν × δ)) (hne : src ≠ dst)
    (hsrc : Represents mem src es) (hdst : Represents mem dst fs)
    (hapart : ∀ x ∈ nodes es, x ∉ nodes fs) :
    ∃ mem', dlinkMoveList src dst mem = some mem' ∧ Represents mem' src [] ∧
      Represents mem' dst (es ++ fs) ∧ Kept (nodes es ++ nodes fs) [src, dst] mem mem' := by
  have hmap : nodes (es ++ fs) = nodes es ++ nodes fs := List.map_append
  have hempty : nodes es = [] → mem.length src = 0 := fun hnil => by
    rw [hsrc.length, List.map_eq_nil_iff.mp hnil]
    rfl
  have hempty' : nodes fs = [] → mem.length dst = 0 := fun hnil => by
    rw [hdst.length, List.map_eq_nil_iff.mp hnil]
    rfl
  have hleft := hsrc.strung.linked
  have hright := hdst.strung.linked
  refine ⟨_, dlinkMoveList_eq mem src dst (nodes es) (nodes fs) hsrc.strung hdst.strung hapart
    hempty hempty', ⟨⟨List.nodup_nil, trivial, update_self .., update_self ..⟩,
      fun e he => absurd he List.not_mem_nil, update_self ..⟩, ⟨⟨?_, ?_, ?_, ?_⟩, fun e he => ?_,
        ?_⟩, ?_⟩
  · rw [hmap]
    exact List.nodup_append.mpr ⟨hsrc.strung.nodup, hdst.strung.nodup,
      fun x hx y hy heq => hapart x hx (heq ▸ hy)⟩
  · rw [hmap]
    refine (linked_append _ _ none none _ _).mpr ⟨?_, ?_⟩
    · refine linked_end mem.prev mem.next _ _ none _ _ _ hsrc.strung.nodup hleft
        (fun x hx => ?_) fun x hx => ?_
      · dsimp only [moved]
        rw [relink_apply, if_neg fun heq => hapart x hx (List.mem_of_head? heq)]
      · dsimp only [moved]
        rw [relink_apply, Option.or_none]
    · refine linked_front mem.prev mem.next _ _ none _ none _ hdst.strung.nodup hright
        (fun x hx => ?_) fun x hx => ?_
      · dsimp only [moved]
        rw [relink_apply, Option.or_none]
      · dsimp only [moved]
        rw [relink_apply, if_neg fun heq => hapart x (List.mem_of_getLast? heq) hx]
  · rw [hmap]
    exact (update_of_ne (Ne.symm hne) _ _).trans (update_self ..)
  · rw [hmap]
    exact (update_of_ne (Ne.symm hne) _ _).trans (update_self ..)
  · rcases List.mem_append.mp he with he | he
    · exact hsrc.data e he
    · exact hdst.data e he
  · dsimp only [moved]
    rw [update_of_ne (Ne.symm hne), update_self, hsrc.length, hdst.length, List.length_append,
      Nat.add_comm, BitVec.ofNat_add]
  · have hlists : ∀ l, l ∉ [src, dst] → l ≠ src ∧ l ≠ dst := fun l hl =>
      ⟨List.ne_of_not_mem_cons hl, fun heq => hl (heq ▸ by simp)⟩
    refine ⟨fun x hx => ?_, fun x hx => ?_, fun _ _ => rfl, fun l hl => ?_, fun l hl => ?_,
      fun l hl => ?_⟩
    · dsimp only [moved]
      rw [relink_apply, if_neg]
      exact fun heq => hx (List.mem_append_right _ (List.mem_of_head? heq))
    · dsimp only [moved]
      rw [relink_apply, if_neg]
      exact fun heq => hx (List.mem_append_left _ (List.mem_of_getLast? heq))
    · exact (update_of_ne (hlists l hl).1 _ _).trans (update_of_ne (hlists l hl).2 _ _)
    · exact (update_of_ne (hlists l hl).1 _ _).trans (update_of_ne (hlists l hl).2 _ _)
    · exact (update_of_ne (hlists l hl).1 _ _).trans (update_of_ne (hlists l hl).2 _ _)

/-- What both kinds of move do to the rest of the list the node was on. -/
theorem unlinked_kept (xs ys zs : List ν) (m : ν) (listDel listAdd : ι) (mem' : Memory ν δ ι)
    (h : Kept (m :: zs) [listAdd] (joined xs ys listDel mem) mem') :
    Kept (xs ++ m :: ys ++ zs) [listDel, listAdd] mem { mem' with
      length := update mem'.length listDel (mem'.length listDel - 1) } := by
  have hxys : xs ++ ys ⊆ xs ++ m :: ys ++ zs := fun x hx => by
    simp only [List.mem_append, List.mem_cons] at hx ⊢
    tauto
  have hmzs : m :: zs ⊆ xs ++ m :: ys ++ zs := fun x hx => by
    simp only [List.mem_append, List.mem_cons] at hx ⊢
    tauto
  have hboth := kept_trans mem _ mem' _ _
    (kept_mono _ _ _ _ [listDel] [listDel, listAdd] (joined_kept mem listDel xs ys) hxys (by simp))
    (kept_mono _ _ _ _ [listAdd] [listDel, listAdd] h hmzs (by simp))
  exact ⟨hboth.prev, hboth.next, hboth.data, hboth.head, hboth.tail, fun l hl =>
    (update_of_ne (List.ne_of_not_mem_cons hl) _ _).trans (hboth.length l hl)⟩

/-- A node is taken from one list to the front of another. -/
theorem dlinkMoveNode_spec (pre post fs : List (ν × δ)) (m : ν) (d : δ) (listDel listAdd : ι)
    (hne : listDel ≠ listAdd) (hdel : Represents mem listDel (pre ++ (m, d) :: post))
    (hadd : Represents mem listAdd fs)
    (hapart : ∀ x ∈ nodes (pre ++ (m, d) :: post), x ∉ nodes fs) :
    ∃ mem', dlinkMoveNode m listDel listAdd mem = some mem' ∧
      Represents mem' listDel (pre ++ post) ∧ Represents mem' listAdd ((m, d) :: fs) ∧
      Kept (nodes (pre ++ (m, d) :: post) ++ nodes fs) [listDel, listAdd] mem mem' := by
  have hmap : nodes (pre ++ (m, d) :: post) = nodes pre ++ m :: nodes post := List.map_append
  have hnew : nodes (pre ++ post) = nodes pre ++ nodes post := List.map_append
  have hlen : (pre ++ (m, d) :: post).length = (pre ++ post).length + 1 := by
    simp only [List.length_append, List.length_cons]
    omega
  have hstrung := hdel.strung
  rw [hmap] at hstrung hapart ⊢
  have hrest : ∀ x ∈ nodes pre ++ nodes post, x ∈ nodes pre ++ m :: nodes post := by
    intro x hx
    simp only [List.mem_append, List.mem_cons] at hx ⊢
    tauto
  have hm : m ∉ nodes fs := hapart m (by simp)
  have hother : ∀ x ∈ nodes pre ++ nodes post, x ≠ m := fun x hx heq =>
    (List.nodup_cons.mp (List.nodup_middle.mp hstrung.nodup)).1 (heq ▸ hx)
  have hjoined := joined_strung mem listDel (nodes pre) (nodes post) m hstrung
  have hkept := joined_kept mem listDel (nodes pre) (nodes post)
  have hnotlist : listAdd ∉ [listDel] := fun hl => hne (List.mem_singleton.mp hl).symm
  have hfs : Strung (joined (nodes pre) (nodes post) listDel mem) listAdd (nodes fs) :=
    strung_congr mem _ listAdd (nodes fs) hadd.strung
      (fun x hx => hkept.prev x fun hmem => hapart x (hrest x hmem) hx)
      (fun x hx => hkept.next x fun hmem => hapart x (hrest x hmem) hx)
      (hkept.head listAdd hnotlist) (hkept.tail listAdd hnotlist)
  have hpushed := pushHead_strung _ listAdd (nodes fs) m hfs hm
  have hkept' := pushHead_kept _ listAdd (nodes fs) m hfs
  have hlength : (pushHead m listAdd (joined (nodes pre) (nodes post) listDel mem)).length =
      update mem.length listAdd (mem.length listAdd + 1) := by
    rw [pushHead_eq _ listAdd (nodes fs) m hfs]
    rfl
  have hdata : (pushHead m listAdd (joined (nodes pre) (nodes post) listDel mem)).data =
      mem.data := by
    rw [pushHead_eq _ listAdd (nodes fs) m hfs]
    rfl
  have hoff : ∀ x ∈ nodes pre ++ nodes post, x ∉ m :: nodes fs := fun x hx hmem =>
    (List.mem_cons.mp hmem).elim (hother x hx) (hapart x (hrest x hx))
  have hnotlist' : listDel ∉ [listAdd] := fun hl => hne (List.mem_singleton.mp hl)
  refine ⟨_, congrArg (Option.map _) (unlink_eq mem listDel (nodes pre) (nodes post) m hstrung),
    ⟨?_, fun e he => ?_, ?_⟩, ⟨?_, fun e he => ?_, ?_⟩, ?_⟩
  · rw [hnew]
    exact strung_congr _ _ listDel _ hjoined (fun x hx => hkept'.prev x (hoff x hx))
      (fun x hx => hkept'.next x (hoff x hx)) (hkept'.head listDel hnotlist')
      (hkept'.tail listDel hnotlist')
  · dsimp only
    rw [hdata]
    refine hdel.data e ?_
    simp only [List.mem_append, List.mem_cons] at he ⊢
    tauto
  · dsimp only
    rw [update_self, hlength, update_of_ne hne, hdel.length, hlen, count_pred]
  · exact strung_congr _ _ listAdd _ hpushed (fun _ _ => rfl) (fun _ _ => rfl) rfl rfl
  · dsimp only
    rw [hdata]
    rcases List.mem_cons.mp he with rfl | he
    · exact hdel.data (m, d) (by simp)
    · exact hadd.data e he
  · dsimp only
    rw [update_of_ne (Ne.symm hne), hlength, update_self, hadd.length, count_succ, List.length_cons]
  · exact unlinked_kept mem (nodes pre) (nodes post) (nodes fs) m listDel listAdd _ hkept'

theorem dlinkMoveNode_front (pre post : List (ν × δ)) (m : ν) (d : δ)
    (h : Represents mem list (pre ++ (m, d) :: post)) :
    ∃ mem', dlinkMoveNode m list list mem = some mem' ∧
      Represents mem' list ((m, d) :: (pre ++ post)) ∧
      Kept (nodes (pre ++ (m, d) :: post)) [list] mem mem' := by
  have hmap : nodes (pre ++ (m, d) :: post) = nodes pre ++ m :: nodes post := List.map_append
  have hnew : nodes ((m, d) :: (pre ++ post)) = m :: (nodes pre ++ nodes post) :=
    congrArg (List.cons m) List.map_append
  have hlen : (pre ++ (m, d) :: post).length = ((m, d) :: (pre ++ post)).length := by
    simp only [List.length_append, List.length_cons]
    omega
  have hstrung := h.strung
  rw [hmap] at hstrung ⊢
  have hm : m ∉ nodes pre ++ nodes post :=
    (List.nodup_cons.mp (List.nodup_middle.mp hstrung.nodup)).1
  have hjoined := joined_strung mem list (nodes pre) (nodes post) m hstrung
  have hpushed := pushHead_strung _ list _ m hjoined hm
  have heq := pushHead_eq _ list _ m hjoined
  refine ⟨_, congrArg (Option.map _) (unlink_eq mem list (nodes pre) (nodes post) m hstrung),
    ⟨?_, fun e he => ?_, ?_⟩, ?_⟩
  · rw [hnew]
    exact strung_congr _ _ list _ hpushed (fun _ _ => rfl) (fun _ _ => rfl) rfl rfl
  · dsimp only
    rw [heq]
    refine h.data e ?_
    simp only [List.mem_append, List.mem_cons] at he ⊢
    tauto
  · dsimp only
    rw [heq]
    dsimp only [joined]
    rw [update_self, update_self, add_sub_cancel_right, h.length, hlen]
  · have hkept := unlinked_kept mem _ _ _ m list list _ (pushHead_kept _ list _ m hjoined)
    refine kept_mono _ _ _ _ _ _ hkept (fun x hx => ?_) (by simp)
    simp only [List.mem_append, List.mem_cons] at hx ⊢
    tauto

end Operations

/-- What is done to the lists. -/
inductive Op (ν δ ι : Type*) where
  | add (data : δ) (m : ν) (list : ι)
  | addBefore (b : ν) (data : δ) (m : ν) (list : ι)
  | addTail (data : δ) (m : ν) (list : ι)
  | delete (m : ν) (list : ι)
  | find (list : ι) (data : δ)
  | findDelete (list : ι) (data : δ)
  | moveList (src dst : ι)
  | moveNode (m : ν) (listDel listAdd : ι)

/-- The memory afterwards, and the node that is returned. -/
def Op.exec (fuel : ℕ) (mem : Memory ν δ ι) : Op ν δ ι → Option (Memory ν δ ι × Option ν)
  | .add data m list => some (dlinkAdd data m list mem, none)
  | .addBefore b data m list => (dlinkAddBefore b data m list mem).map fun mem => (mem, none)
  | .addTail data m list => some (dlinkAddTail data m list mem, none)
  | .delete m list => (dlinkDelete m list mem).map fun mem => (mem, none)
  | .find list data => (dlinkFind fuel list data mem).map fun found => (mem, found)
  | .findDelete list data => dlinkFindDelete fuel list data mem
  | .moveList src dst => (dlinkMoveList src dst mem).map fun mem => (mem, none)
  | .moveNode m listDel listAdd => (dlinkMoveNode m listDel listAdd mem).map fun mem => (mem, none)

section Spec

variable (s : ι → List (ν × δ))

/-- What the caller sees to: a node is put on a list while it is on none, and taken from the list
it is on; a list is not moved to itself. -/
def Op.Allowed : Op ν δ ι → Prop
  | .add _ m _ | .addTail _ m _ => ∀ list, m ∉ nodes (s list)
  | .addBefore b _ m list => b ∈ nodes (s list) ∧ ∀ list, m ∉ nodes (s list)
  | .delete m list | .moveNode m list _ => m ∈ nodes (s list)
  | .find _ _ | .findDelete _ _ => True
  | .moveList src dst => src ≠ dst

def entryOf (m : ν) (es : List (ν × δ)) : Option (ν × δ) := es.find? fun e => decide (e.1 = m)

def without (m : ν) (es : List (ν × δ)) : List (ν × δ) := es.eraseP fun e => decide (e.1 = m)

/-- The sequences afterwards. -/
def Op.after : Op ν δ ι → ι → List (ν × δ)
  | .add data m list => update s list ((m, data) :: s list)
  | .addBefore b data m list => update s list (insertBefore b (m, data) (s list))
  | .addTail data m list => update s list (s list ++ [(m, data)])
  | .delete m list => update s list (without m (s list))
  | .find _ _ => s
  | .findDelete list data => update s list ((s list).eraseP fun e => decide (e.2 = data))
  | .moveList src dst => update (update s dst (s src ++ s dst)) src []
  | .moveNode m listDel listAdd =>
    let rest := update s listDel (without m (s listDel))
    update rest listAdd ((entryOf m (s listDel)).toList ++ rest listAdd)

/-- The node that is found. -/
def Op.result : Op ν δ ι → Option ν
  | .find list data | .findDelete list data =>
    ((s list).find? fun e => decide (e.2 = data)).map Prod.fst
  | _ => none

/-- The node that is on no list any more. -/
def Op.freed : Op ν δ ι → Option ν
  | .delete m _ => some m
  | .findDelete list data => ((s list).find? fun e => decide (e.2 = data)).map Prod.fst
  | _ => none

def Op.lists : Op ν δ ι → List ι
  | .add _ _ list | .addBefore _ _ _ list | .addTail _ _ list | .delete _ list
  | .find list _ | .findDelete list _ => [list]
  | .moveList src dst => [src, dst]
  | .moveNode _ listDel listAdd => [listDel, listAdd]

/-- The nodes of the lists it names, and the one that is put on a list. -/
def Op.nodes (op : Op ν δ ι) : List ν :=
  (match op with
    | .add _ m _ | .addBefore _ _ m _ | .addTail _ m _ => [m]
    | _ => []) ++ op.lists.flatMap fun list => Dlink.nodes (s list)

end Spec

/-- Every list is its sequence, and no node is on two. -/
structure Holds (mem : Memory ν δ ι) (s : ι → List (ν × δ)) : Prop where
  represents : ∀ list, Represents mem list (s list)
  apart : ∀ list list', list ≠ list' → ∀ x ∈ nodes (s list), x ∉ nodes (s list')

omit [DecidableEq δ] [DecidableEq ι] in
theorem split_at (m : ν) (es : List (ν × δ)) (hm : m ∈ nodes es) :
    ∃ d pre post, es = pre ++ (m, d) :: post ∧ m ∉ nodes pre ∧ without m es = pre ++ post ∧
      entryOf m es = some (m, d) := by
  obtain ⟨e, he, hem⟩ := List.mem_map.mp hm
  obtain ⟨e', pre, post, hpre, he', rfl, herase⟩ :=
    List.exists_of_eraseP (p := fun e : ν × δ => decide (e.1 = m)) he (decide_eq_true hem)
  obtain rfl : e'.1 = m := of_decide_eq_true he'
  have hfind : entryOf e'.1 (pre ++ e' :: post) = some e' :=
    List.find?_eq_some_iff_append.mpr ⟨he', pre, post, rfl, fun x hx => by simpa using hpre x hx⟩
  refine ⟨e'.2, pre, post, rfl, fun hmem => ?_, herase, hfind⟩
  obtain ⟨x, hx, hxe⟩ := List.mem_map.mp hmem
  exact hpre x hx (decide_eq_true hxe)

omit [DecidableEq δ] in
theorem without_sub (m : ν) (es : List (ν × δ)) : ∀ x ∈ nodes (without m es), x ∈ nodes es :=
  fun _ hx => (List.eraseP_sublist.map Prod.fst).subset hx

omit [DecidableEq ν] [DecidableEq δ] in
/-- The lists an operation does not name are as before, and the others are as it says. -/
theorem holds_of_kept (mem mem' : Memory ν δ ι) (s s' : ι → List (ν × δ)) (xs : List ν)
    (lists : List ι) (h : Holds mem s) (hkept : Kept xs lists mem mem')
    (hoff : ∀ l, l ∉ lists → ∀ x ∈ xs, x ∉ nodes (s l)) (hsame : ∀ l, l ∉ lists → s' l = s l)
    (hrep : ∀ l ∈ lists, Represents mem' l (s' l))
    (hsub : ∀ l ∈ lists, ∀ x ∈ nodes (s' l), x ∈ xs)
    (hpair : ∀ l ∈ lists, ∀ l' ∈ lists, l ≠ l' → ∀ x ∈ nodes (s' l), x ∉ nodes (s' l')) :
    Holds mem' s' := by
  refine ⟨fun l => ?_, fun l l' hne x hx hx' => ?_⟩
  · by_cases hl : l ∈ lists
    · exact hrep l hl
    · rw [hsame l hl]
      exact represents_kept mem mem' (s l) xs l lists (h.represents l) hkept
        (fun x hx hmem => hoff l hl x hmem hx) hl
  · by_cases hl : l ∈ lists
    · by_cases hl' : l' ∈ lists
      · exact hpair l hl l' hl' hne x hx hx'
      · rw [hsame l' hl'] at hx'
        exact hoff l' hl' x (hsub l hl x hx) hx'
    · rw [hsame l hl] at hx
      by_cases hl' : l' ∈ lists
      · exact hoff l hl x (hsub l' hl' x hx') hx
      · rw [hsame l' hl'] at hx'
        exact h.apart l l' hne x hx hx'

section Holds

omit [DecidableEq ν] [DecidableEq δ]

variable (mem mem' : Memory ν δ ι) (s : ι → List (ν × δ)) (xs : List ν) (h : Holds mem s)

include h

theorem holds_update (list : ι) (es : List (ν × δ)) (hkept : Kept xs [list] mem mem')
    (hoff : ∀ l, l ≠ list → ∀ x ∈ xs, x ∉ nodes (s l)) (hrep : Represents mem' list es)
    (hsub : ∀ x ∈ nodes es, x ∈ xs) : Holds mem' (update s list es) := by
  refine holds_of_kept mem mem' s _ xs [list] h hkept
    (fun l hl => hoff l (List.ne_of_not_mem_cons hl))
    (fun l hl => update_of_ne (List.ne_of_not_mem_cons hl) _ _) (fun l hl => ?_) (fun l hl => ?_)
    fun l hl l' hl' hne => ?_
  · rw [List.mem_singleton.mp hl, update_self]
    exact hrep
  · rw [List.mem_singleton.mp hl, update_self]
    exact hsub
  · rw [List.mem_singleton.mp hl, List.mem_singleton.mp hl'] at hne
    exact absurd rfl hne

theorem holds_update_two (list list' : ι) (es es' : List (ν × δ)) (hne : list ≠ list')
    (hkept : Kept xs [list, list'] mem mem')
    (hoff : ∀ l, l ≠ list → l ≠ list' → ∀ x ∈ xs, x ∉ nodes (s l))
    (hrep : Represents mem' list es) (hrep' : Represents mem' list' es')
    (hsub : ∀ x ∈ nodes es, x ∈ xs ∧ x ∉ nodes es') (hsub' : ∀ x ∈ nodes es', x ∈ xs) :
    Holds mem' (update (update s list es) list' es') := by
  have hmem : ∀ l, l ∉ [list, list'] → l ≠ list ∧ l ≠ list' := fun l hl =>
    ⟨List.ne_of_not_mem_cons hl, List.ne_of_not_mem_cons (List.not_mem_of_not_mem_cons hl)⟩
  have hfirst : update (update s list es) list' es' list = es := by
    rw [update_of_ne hne, update_self]
  have hsecond : update (update s list es) list' es' list' = es' := update_self ..
  have hcases : ∀ l, l ∈ [list, list'] → l = list ∨ l = list' := fun l hl => by simpa using hl
  refine holds_of_kept mem mem' s _ xs [list, list'] h hkept
    (fun l hl => hoff l (hmem l hl).1 (hmem l hl).2)
    (fun l hl => (update_of_ne (hmem l hl).2 _ _).trans (update_of_ne (hmem l hl).1 _ _))
    (fun l hl => ?_) (fun l hl => ?_) fun l hl l' hl' hll => ?_
  · rcases hcases l hl with rfl | rfl
    · rwa [hfirst]
    · rwa [hsecond]
  · rcases hcases l hl with rfl | rfl
    · rw [hfirst]
      exact fun x hx => (hsub x hx).1
    · rwa [hsecond]
  · rcases hcases l hl with rfl | rfl <;> rcases hcases l' hl' with rfl | rfl
    · exact absurd rfl hll
    · rw [hfirst, hsecond]
      exact fun x hx => (hsub x hx).2
    · rw [hfirst, hsecond]
      exact fun x hx hx' => (hsub x hx').2 hx
    · exact absurd rfl hll

end Holds

/-- The operation does to the memory what it does to the sequences, once it is given steps
enough. -/
def Refines (mem : Memory ν δ ι) (s : ι → List (ν × δ)) (op : Op ν δ ι) : Prop :=
  ∃ mem', (∃ bound, ∀ fuel, bound ≤ fuel → op.exec fuel mem = some (mem', op.result s)) ∧
    Holds mem' (op.after s) ∧
      (∀ m, op.freed s = some m → mem'.prev m = none ∧ mem'.next m = none) ∧
      Kept (op.nodes s) op.lists mem mem'

section Refines

variable (mem : Memory ν δ ι) (s : ι → List (ν × δ)) (h : Holds mem s)

include h

omit [DecidableEq ν] [DecidableEq δ] [DecidableEq ι] in
/-- The nodes of a list, with one that is on no list, are on no other. -/
theorem fresh_off (m : ν) (list : ι) (hm : ∀ l, m ∉ nodes (s l)) (l : ι) (hl : l ≠ list) :
    ∀ x ∈ m :: nodes (s list), x ∉ nodes (s l) := by
  intro x hx
  rcases List.mem_cons.mp hx with rfl | hx
  · exact hm l
  · exact h.apart list l (Ne.symm hl) x hx

theorem refines_add (data : δ) (m : ν) (list : ι) (hm : ∀ l, m ∉ nodes (s l)) :
    Refines mem s (.add data m list) := by
  obtain ⟨hrep, hkept⟩ := dlinkAdd_spec mem list (s list) data m (h.represents list) (hm list)
  refine ⟨_, ⟨0, fun _ _ => rfl⟩, ?_, fun m' hm' => by simp [Op.freed] at hm', ?_⟩
  · exact holds_update mem _ s _ h list _ hkept (fresh_off mem s h m list hm) hrep fun x hx => hx
  · exact kept_mono _ _ _ _ _ _ hkept (by simp [Op.nodes, Op.lists]) (List.Subset.refl _)

theorem refines_addBefore (b : ν) (data : δ) (m : ν) (list : ι) (hb : b ∈ nodes (s list))
    (hm : ∀ l, m ∉ nodes (s l)) : Refines mem s (.addBefore b data m list) := by
  obtain ⟨d, pre, post, hsplit, hnot, -, -⟩ := split_at b (s list) hb
  have hrep := h.represents list
  have hmlist := hm list
  have hoff := fresh_off mem s h m list hm
  rw [hsplit] at hrep hmlist
  obtain ⟨mem', hexec, hrep', hkept⟩ := dlinkAddBefore_spec mem list pre post b d data m hrep hmlist
  rw [← hsplit] at hkept
  refine ⟨mem', ⟨0, fun _ _ => congrArg (Option.map _) hexec⟩, ?_, fun m' hm' => by
    simp [Op.freed] at hm', ?_⟩
  · have hafter : (Op.addBefore b data m list).after s =
        update s list (pre ++ (m, data) :: (b, d) :: post) := by
      dsimp only [Op.after]
      rw [hsplit, insertBefore_eq b d (m, data) pre post hnot]
    rw [hafter]
    refine holds_update mem _ s _ h list _ hkept hoff hrep' fun x hx => ?_
    rw [hsplit]
    simp only [nodes, List.map_append, List.map_cons, List.mem_append, List.mem_cons] at hx ⊢
    tauto
  · exact kept_mono _ _ _ _ _ _ hkept (by simp [Op.nodes, Op.lists]) (List.Subset.refl _)

theorem refines_addTail (data : δ) (m : ν) (list : ι) (hm : ∀ l, m ∉ nodes (s l)) :
    Refines mem s (.addTail data m list) := by
  obtain ⟨hrep, hkept⟩ := dlinkAddTail_spec mem list (s list) data m (h.represents list) (hm list)
  refine ⟨_, ⟨0, fun _ _ => rfl⟩, ?_, fun m' hm' => by simp [Op.freed] at hm', ?_⟩
  · refine holds_update mem _ s _ h list _ hkept (fresh_off mem s h m list hm) hrep fun x hx => ?_
    simp only [nodes, List.map_append, List.map_cons, List.map_nil, List.mem_append,
      List.mem_cons] at hx ⊢
    tauto
  · exact kept_mono _ _ _ _ _ _ hkept (by simp [Op.nodes, Op.lists]) (List.Subset.refl _)

theorem refines_delete (m : ν) (list : ι) (hm : m ∈ nodes (s list)) :
    Refines mem s (.delete m list) := by
  obtain ⟨d, pre, post, hsplit, -, hwithout, -⟩ := split_at m (s list) hm
  have hrep := h.represents list
  rw [hsplit] at hrep
  obtain ⟨mem', hexec, hrep', hprev, hnext, hkept⟩ := dlinkDelete_spec mem list pre post m d hrep
  rw [← hsplit] at hkept
  refine ⟨mem', ⟨0, fun _ _ => congrArg (Option.map _) hexec⟩, ?_, fun m' hm' => ?_, ?_⟩
  · rw [← hwithout] at hrep'
    exact holds_update mem _ s _ h list _ hkept (fun l hl => h.apart list l (Ne.symm hl)) hrep'
      (without_sub m (s list))
  · obtain rfl : m = m' := Option.some.inj hm'
    exact ⟨hprev, hnext⟩
  · exact kept_mono _ _ _ _ _ _ hkept (by simp [Op.nodes, Op.lists]) (List.Subset.refl _)

theorem refines_find (list : ι) (data : δ) : Refines mem s (.find list data) := by
  refine ⟨mem, ⟨(s list).length, fun fuel hfuel => ?_⟩, h, fun m' hm' => by
    simp [Op.freed] at hm', fun _ _ => rfl, fun _ _ => rfl, fun _ _ => rfl, fun _ _ => rfl,
      fun _ _ => rfl, fun _ _ => rfl⟩
  exact congrArg (Option.map _)
    (dlinkFind_spec mem list (s list) fuel data (h.represents list) hfuel)

theorem refines_findDelete (list : ι) (data : δ) : Refines mem s (.findDelete list data) := by
  obtain ⟨mem', hexec, hrep, hfreed, hkept⟩ :=
    dlinkFindDelete_spec mem list (s list) data (h.represents list)
  refine ⟨mem', ⟨(s list).length, hexec⟩, ?_, hfreed, ?_⟩
  · exact holds_update mem _ s _ h list _ hkept (fun l hl => h.apart list l (Ne.symm hl)) hrep
      fun x hx => (List.eraseP_sublist.map Prod.fst).subset hx
  · exact kept_mono _ _ _ _ _ _ hkept (by simp [Op.nodes, Op.lists]) (List.Subset.refl _)

theorem refines_moveList (src dst : ι) (hne : src ≠ dst) : Refines mem s (.moveList src dst) := by
  obtain ⟨mem', hexec, hsrc, hdst, hkept⟩ := dlinkMoveList_spec mem src dst (s src) (s dst) hne
    (h.represents src) (h.represents dst) (h.apart src dst hne)
  refine ⟨mem', ⟨0, fun _ _ => congrArg (Option.map _) hexec⟩, ?_, fun m' hm' => by
    simp [Op.freed] at hm', ?_⟩
  · have hswap := kept_mono _ _ _ _ _ [dst, src] hkept (List.Subset.refl _) (by simp)
    refine holds_update_two mem mem' s _ h dst src _ _ (Ne.symm hne) hswap
      (fun l hl hl' x hx => ?_) hdst hsrc (fun x hx => ⟨?_, List.not_mem_nil⟩)
      fun x hx => absurd hx List.not_mem_nil
    · rcases List.mem_append.mp hx with hx | hx
      · exact h.apart src l (Ne.symm hl') x hx
      · exact h.apart dst l (Ne.symm hl) x hx
    · rw [nodes, List.map_append] at hx
      exact hx
  · exact kept_mono _ _ _ _ _ _ hkept (by simp [Op.nodes, Op.lists]) (List.Subset.refl _)

theorem refines_moveNode (m : ν) (listDel listAdd : ι) (hm : m ∈ nodes (s listDel)) :
    Refines mem s (.moveNode m listDel listAdd) := by
  obtain ⟨d, pre, post, hsplit, -, hwithout, hentry⟩ := split_at m (s listDel) hm
  have hdel := h.represents listDel
  rw [hsplit] at hdel
  by_cases hne : listDel = listAdd
  · subst hne
    obtain ⟨mem', hexec, hrep, hkept⟩ := dlinkMoveNode_front mem listDel pre post m d hdel
    rw [← hsplit] at hkept
    refine ⟨mem', ⟨0, fun _ _ => congrArg (Option.map _) hexec⟩, ?_, fun m' hm' => by
      simp [Op.freed] at hm', ?_⟩
    · have hafter : (Op.moveNode m listDel listDel).after s =
          update s listDel ((m, d) :: (pre ++ post)) := by
        dsimp only [Op.after]
        rw [hentry, hwithout, update_self, update_idem]
        rfl
      rw [hafter]
      refine holds_update mem mem' s _ h listDel _ hkept
        (fun l hl => h.apart listDel l (Ne.symm hl)) hrep fun x hx => ?_
      rw [hsplit]
      simp only [nodes, List.map_append, List.map_cons, List.mem_append, List.mem_cons] at hx ⊢
      tauto
    · exact kept_mono _ _ _ _ _ _ hkept (by simp [Op.nodes, Op.lists]) (by simp [Op.lists])
  · have hapart := h.apart listDel listAdd hne
    rw [hsplit] at hapart
    obtain ⟨mem', hexec, hrep, hrep', hkept⟩ := dlinkMoveNode_spec mem pre post (s listAdd) m d
      listDel listAdd hne hdel (h.represents listAdd) hapart
    rw [← hsplit] at hkept hapart
    refine ⟨mem', ⟨0, fun _ _ => congrArg (Option.map _) hexec⟩, ?_, fun m' hm' => by
      simp [Op.freed] at hm', ?_⟩
    · have hafter : (Op.moveNode m listDel listAdd).after s =
          update (update s listDel (pre ++ post)) listAdd ((m, d) :: s listAdd) := by
        dsimp only [Op.after]
        rw [hentry, hwithout, update_of_ne (Ne.symm hne)]
        rfl
      have hnodup := (h.represents listDel).strung.nodup
      rw [hsplit, nodes, List.map_append] at hnodup
      have hmnot := (List.nodup_cons.mp (List.nodup_middle.mp hnodup)).1
      have hrest : ∀ x ∈ nodes (pre ++ post), x ∈ nodes (s listDel) ∧ x ≠ m := by
        intro x hx
        refine ⟨without_sub m (s listDel) x (hwithout ▸ hx), fun heq => hmnot ?_⟩
        rwa [nodes, List.map_append, heq] at hx
      rw [hafter]
      refine holds_update_two mem mem' s _ h listDel listAdd _ _ hne hkept (fun l hl hl' x hx => ?_)
        hrep hrep' (fun x hx => ⟨List.mem_append_left _ (hrest x hx).1, fun hmem => ?_⟩)
        fun x hx => ?_
      · rcases List.mem_append.mp hx with hx | hx
        · exact h.apart listDel l (Ne.symm hl) x hx
        · exact h.apart listAdd l (Ne.symm hl') x hx
      · exact (List.mem_cons.mp hmem).elim (hrest x hx).2 (hapart x (hrest x hx).1)
      · rcases List.mem_cons.mp hx with rfl | hx
        · exact List.mem_append_left _ hm
        · exact List.mem_append_right _ hx
    · exact kept_mono _ _ _ _ _ _ hkept (by simp [Op.nodes, Op.lists]) (List.Subset.refl _)

theorem refines_of_allowed (op : Op ν δ ι) (hop : op.Allowed s) : Refines mem s op := by
  cases op with
  | add data m list => exact refines_add mem s h data m list hop
  | addBefore b data m list => exact refines_addBefore mem s h b data m list hop.1 hop.2
  | addTail data m list => exact refines_addTail mem s h data m list hop
  | delete m list => exact refines_delete mem s h m list hop
  | find list data => exact refines_find mem s h list data
  | findDelete list data => exact refines_findDelete mem s h list data
  | moveList src dst => exact refines_moveList mem s h src dst hop
  | moveNode m listDel listAdd => exact refines_moveNode mem s h m listDel listAdd hop

end Refines

/-- One operation after the other. -/
def execAll (fuel : ℕ) : List (Op ν δ ι) → Memory ν δ ι → Option (Memory ν δ ι)
  | [], mem => some mem
  | op :: ops, mem => (op.exec fuel mem).bind fun outcome => execAll fuel ops outcome.1

def afterAll : List (Op ν δ ι) → (ι → List (ν × δ)) → ι → List (ν × δ)
  | [], s => s
  | op :: ops, s => afterAll ops (op.after s)

/-- Each operation is allowed when its turn comes. -/
def AllowedAll : List (Op ν δ ι) → (ι → List (ν × δ)) → Prop
  | [], _ => True
  | op :: ops, s => op.Allowed s ∧ AllowedAll ops (op.after s)

theorem execAll_holds (ops : List (Op ν δ ι)) (mem : Memory ν δ ι) (s : ι → List (ν × δ))
    (h : Holds mem s) (hops : AllowedAll ops s) :
    ∃ mem' bound, (∀ fuel, bound ≤ fuel → execAll fuel ops mem = some mem') ∧
      Holds mem' (afterAll ops s) := by
  induction ops generalizing mem s with
  | nil => exact ⟨mem, 0, fun _ _ => rfl, h⟩
  | cons op ops ih =>
    obtain ⟨mid, ⟨bound, hexec⟩, hmid, -, -⟩ := refines_of_allowed mem s h op hops.1
    obtain ⟨mem', bound', hrest, hmem'⟩ := ih mid (op.after s) hmid hops.2
    refine ⟨mem', max bound bound', fun fuel hfuel => ?_, hmem'⟩
    rw [execAll, hexec fuel (Nat.le_trans (Nat.le_max_left ..) hfuel), Option.bind_some]
    exact hrest fuel (Nat.le_trans (Nat.le_max_right ..) hfuel)

/-- No list has a node. -/
def noNodes : Memory ν ℕ ι := ⟨fun _ => 0, fun _ => none, fun _ => none, fun _ => none,
  fun _ => none, fun _ => 0⟩

omit [DecidableEq ν] [DecidableEq ι] in
theorem noNodes_holds : Holds (noNodes : Memory ν ℕ ι) (fun _ => []) where
  represents _ := ⟨⟨List.nodup_nil, trivial, rfl, rfl⟩, fun _ he => absurd he List.not_mem_nil, rfl⟩
  apart _ _ _ _ hx := absurd hx List.not_mem_nil

/-- On well-formed lists every operation ends, follows no null pointer, fails no assertion, and
does to the represented sequences what it says. The links of the node that it takes off are null,
and the nodes and lists it has nothing to do with stay as they are. So it is for every run of
operations. -/
theorem dlink_refines (mem : Memory ν δ ι) (s : ι → List (ν × δ)) (h : Holds mem s) :
    (∀ op : Op ν δ ι, op.Allowed s → Refines mem s op) ∧
      ∀ ops : List (Op ν δ ι), AllowedAll ops s →
        ∃ mem' bound, (∀ fuel, bound ≤ fuel → execAll fuel ops mem = some mem') ∧
          Holds mem' (afterAll ops s) :=
  ⟨refines_of_allowed mem s h, fun ops => execAll_holds ops mem s h⟩

/-- Every operation once. -/
theorem dlink_refines_each : Refines (noNodes : Memory ℕ ℕ Bool) (fun _ => []) (.add 10 1 true) ∧
    ∃ mem' bound, (∀ fuel, bound ≤ fuel →
      execAll fuel [.add 10 1 true, .addTail 20 2 true, .addBefore 2 30 3 true, .find true 30,
        .moveNode 3 true false, .moveList true false, .findDelete false 20, .delete 1 false]
        (noNodes : Memory ℕ ℕ Bool) = some mem') ∧
      Holds mem' (afterAll [.add 10 1 true, .addTail 20 2 true, .addBefore 2 30 3 true,
        .find true 30, .moveNode 3 true false, .moveList true false, .findDelete false 20,
        .delete 1 false] fun _ => []) :=
  ⟨(dlink_refines noNodes (fun _ => []) noNodes_holds).1 _ fun _ => List.not_mem_nil,
    (dlink_refines noNodes (fun _ => []) noNodes_holds).2 _
      (by simp [AllowedAll, Op.Allowed, Op.after, nodes, insertBefore, without, entryOf])⟩

end IrcdHybrid.Dlink
