/-
# Paging through a listing with a cursor

A listing is read page by page: a request names a cursor and a page size, and the answer holds the
items after the cursor, at most as many as asked for, and the cursor of the next page if there are
more.  The listing may grow at its end between two requests.

* Section 1 is about tables read in the order of a key.  `insertionSort_eq` says that sorting
  depends on the rows only, and `filter_after` that the rows after a cursor are the rest of the
  listing.  Where a row stands for several items, `take_flatMap_take` counts the rows to fetch.
* Section 2 is one page, `cut`, of the rows a handler fetched.
* Section 3 is the walk that follows the cursors from none to none.  `Serves` says what the server
  has to do, one request at a time, and `Serves.reconstructs` what the walk then returns.
* Section 4 is the walk as a client's loop, which only keeps the items.
-/
import Mathlib

namespace Paging

variable {α β κ ε : Type*}

/-! ## 1. Tables in key order -/

section Sorted

variable [LinearOrder κ] {key : α → κ} {l rows : List α}

/-- A table whose rows are `rows` in the order of their keys is sorted to `rows`. -/
theorem insertionSort_eq [DecidableRel fun a b => key a ≤ key b] (hperm : l.Perm rows)
    (hsorted : rows.Pairwise fun a b => key a < key b) :
    l.insertionSort (fun a b => key a ≤ key b) = rows := by
  have hdistinct : (rows.map key).Nodup := List.pairwise_map.mpr (hsorted.imp ne_of_lt)
  have : Std.Total fun a b => key a ≤ key b := ⟨fun a b => le_total (key a) (key b)⟩
  have : IsTrans α fun a b => key a ≤ key b := ⟨fun _ _ _ => le_trans⟩
  have hp := (List.perm_insertionSort (fun a b => key a ≤ key b) l).trans hperm
  refine List.Perm.eq_of_pairwise (fun a b ha hb hab hba => ?_)
    (List.pairwise_insertionSort _ l) (hsorted.imp le_of_lt) hp
  exact List.inj_on_of_nodup_map hdistinct (hp.subset ha) hb (le_antisymm hab hba)

/-- The rows after the last one read are the rest of the listing. -/
theorem filter_after {got rest : List α} {last : α} {p : α → Bool}
    (hsorted : (got ++ rest).Pairwise fun a b => key a < key b) (hlast : got.getLast? = some last)
    (hp : ∀ a, p a = true ↔ key last < key a) : (got ++ rest).filter p = rest := by
  obtain ⟨init, rfl⟩ := List.getLast?_eq_some_iff.mp hlast
  rw [List.pairwise_append, List.pairwise_append] at hsorted
  obtain ⟨⟨-, -, hinit⟩, -, hrest⟩ := hsorted
  have hgot : (init ++ [last]).filter p = [] := by
    rw [List.filter_eq_nil_iff]
    intro a ha hpa
    have hlt := (hp a).mp hpa
    rcases List.mem_append.mp ha with ha | ha
    · exact lt_asymm hlt (hinit a ha last (List.mem_singleton_self last))
    · exact lt_irrefl _ (List.mem_singleton.mp ha ▸ hlt)
  have hkept : rest.filter p = rest := by
    rw [List.filter_eq_self]
    intro a ha
    exact (hp a).mpr (hrest last (by simp) a ha)
  rw [List.filter_append, hgot, hkept, List.nil_append]

end Sorted

/-- Rows that stand for no item may be left out. -/
theorem flatMap_filter {f : α → List β} {p : α → Bool} : ∀ {l : List α},
    (∀ a ∈ l, p a = false → f a = []) → (l.filter p).flatMap f = l.flatMap f
  | [], _ => rfl
  | a :: l, h => by
    have ih := flatMap_filter fun b hb => h b (List.mem_cons_of_mem a hb)
    rw [List.flatMap_cons]
    cases hp : p a with
    | true => rw [List.filter_cons_of_pos hp, List.flatMap_cons, ih]
    | false =>
      rw [List.filter_cons_of_neg (by simp [hp]), h a List.mem_cons_self hp, List.nil_append, ih]

/-- Rows that each stand for at least one item: the first `m` items come from the first `m`
rows. -/
theorem take_flatMap_take (f : α → List β) : ∀ {l : List α} {j m : Nat}, j ≤ m →
    (∀ a ∈ l, f a ≠ []) → ((l.take m).flatMap f).take j = (l.flatMap f).take j
  | [], j, m, _, _ => by rw [List.take_nil]
  | a :: l, j, 0, hj, _ => by
    obtain rfl : j = 0 := by omega
    rw [List.take_zero, List.take_zero]
  | a :: l, j, m + 1, hj, hf => by
    have hlen := List.length_pos_of_ne_nil (hf a List.mem_cons_self)
    rw [List.take_succ_cons, List.flatMap_cons, List.flatMap_cons, List.take_append,
      List.take_append, take_flatMap_take f (by omega) fun b hb => hf b (List.mem_cons_of_mem _ hb)]

/-- The first row may stand for none; then one row more is enough. -/
theorem take_flatMap_take_succ (f : α → List β) {l : List α} {m : Nat}
    (hf : ∀ a ∈ l.tail, f a ≠ []) :
    ((l.take (m + 1)).flatMap f).take m = (l.flatMap f).take m := by
  cases l with
  | nil => rw [List.take_nil]
  | cons a l =>
    rw [List.tail_cons] at hf
    rw [List.take_succ_cons, List.flatMap_cons, List.flatMap_cons, List.take_append,
      List.take_append, take_flatMap_take f (Nat.sub_le _ _) hf]

/-! ## 2. One page -/

/-- What a handler makes of the rows it fetched: the first `limit` of them, and if there are more
the cursor after these. -/
def cut (next : α → κ) (rows : List α) (limit : Nat) : List α × Option κ :=
  (rows.take limit, if rows.length > limit then (rows.take limit).getLast?.map next else none)

/-- Fetching one row more than the page holds is enough. -/
theorem cut_take (next : α → κ) (rows : List α) (limit : Nat) :
    cut next (rows.take (limit + 1)) limit = cut next rows limit := by
  have hlen : (rows.take (limit + 1)).length > limit ↔ rows.length > limit := by
    rw [List.length_take]
    omega
  simp only [cut, List.take_take, hlen, Nat.min_eq_left (Nat.le_succ limit)]

theorem cut_map (next : β → κ) (f : α → β) (rows : List α) (limit : Nat) :
    cut next (rows.map f) limit =
      ((cut (next ∘ f) rows limit).1.map f, (cut (next ∘ f) rows limit).2) := by
  simp only [cut, List.length_map, ← List.map_take, List.getLast?_map, Option.map_map]

/-! ## 3. The walk -/

/-- The pages a walk has returned, and where it stands. -/
structure Walk (α κ : Type*) where
  pages : List (List α)
  cursor : Option κ
  ended : Bool

/-- The walk after `requests` requests: it starts without a cursor and stops once there is no next
one.  `serve i` answers request number `i`. -/
def walk (serve : Nat → Option κ → Except ε (List α × Option κ)) :
    (requests : Nat) → Except ε (Walk α κ)
  | 0 => .ok ⟨[], none, false⟩
  | n + 1 => do
    let w ← walk serve n
    if w.ended then .ok w
    else do
      let (items, next) ← serve n w.cursor
      .ok ⟨w.pages ++ [items], next, next.isNone⟩

/-- A server of a listing that grows at its end.  Request `i` sees the items `items i` and may ask
for `size i` of them; given the cursor after some of them, with more to come, it answers with a
page of the others. -/
structure Serves (next : α → κ) (items : Nat → List α) (size : Nat → Nat)
    (serve : Nat → Option κ → Except ε (List α × Option κ)) : Prop where
  grows : ∀ i, items i <+: items (i + 1)
  size_pos : ∀ i, 1 ≤ size i
  answer : ∀ i got rest, items i = got ++ rest → got = [] ∨ rest ≠ [] →
    serve i (got.getLast?.map next) = .ok (cut next rest (size i))

/-- What a walk returns of such a listing.  Request `n - 1` is the last of `n`. -/
structure Reconstructs (items : Nat → List α) (size : Nat → Nat) (n : Nat) (w : Walk α κ) :
    Prop where
  /-- No page is longer than asked for. -/
  sizes : ∀ i (h : i < w.pages.length), w.pages[i].length ≤ size i
  /-- The pages together are the beginning of the listing, each item once and in order. -/
  beginning : w.pages.flatten <+: items (w.pages.length - 1)
  /-- A walk that has ended returned all of it. -/
  complete : w.ended = true → w.pages.flatten = items (w.pages.length - 1)
  /-- What was there at the start is returned by as many requests as there were items. -/
  present : (items 0).length ≤ n → items 0 <+: w.pages.flatten
  /-- The walk ends as soon as it has sent as many requests as there are items. -/
  ends : 0 < n → (items (n - 1)).length ≤ n → w.ended = true

/-- How a walk stands after `n` requests. -/
structure Stands (next : α → κ) (items : Nat → List α) (size : Nat → Nat) (n : Nat)
    (w : Walk α κ) : Prop where
  sizes : ∀ i (h : i < w.pages.length), w.pages[i].length ≤ size i
  complete : w.ended = true → w.pages.flatten = items (w.pages.length - 1)
  /-- While it goes on, every request has brought something, and there is more. -/
  going : w.ended = false → w.pages.length = n ∧ n ≤ w.pages.flatten.length ∧
    w.cursor = w.pages.flatten.getLast?.map next ∧
    ∃ rest, items (n - 1) = w.pages.flatten ++ rest ∧ (0 < n → rest ≠ [])

variable {next : α → κ} {items : Nat → List α} {size : Nat → Nat}
  {serve : Nat → Option κ → Except ε (List α × Option κ)} {n : Nat} {w : Walk α κ}

theorem Serves.initial (h : Serves next items size serve) {i j : Nat} (hij : i ≤ j) :
    items i <+: items j := by
  induction j, hij using Nat.le_induction with
  | base => exact List.prefix_rfl
  | succ j _ ih => exact ih.trans (h.grows j)

theorem stands_zero : Stands next items size 0 (⟨[], none, false⟩ : Walk α κ) where
  sizes := fun i h => by cases h
  complete := fun h => by cases h
  going := fun _ => ⟨rfl, le_rfl, rfl, items 0, rfl, fun h => absurd h (lt_irrefl 0)⟩

theorem flatten_concat (pages : List (List α)) (page : List α) :
    (pages ++ [page]).flatten = pages.flatten ++ page := by
  rw [List.flatten_append, List.flatten_singleton]

/-- **One request.** -/
theorem Serves.step (h : Serves next items size serve) (hw : Stands next items size n w)
    (hgoing : w.ended = false) : ∃ page cursor, serve n w.cursor = .ok (page, cursor) ∧
      Stands next items size (n + 1) ⟨w.pages ++ [page], cursor, cursor.isNone⟩ := by
  obtain ⟨hlen, hcount, hcursor, rest, hrest, hne⟩ := hw.going hgoing
  -- what the request sees begins with what was returned
  obtain ⟨more, hmore, hnext⟩ : ∃ more, items n = w.pages.flatten ++ more ∧
      (w.pages.flatten = [] ∨ more ≠ []) := by
    obtain ⟨new, hnew⟩ := h.initial (Nat.sub_le n 1)
    refine ⟨rest ++ new, by rw [← hnew, hrest, List.append_assoc], ?_⟩
    rcases Nat.eq_zero_or_pos n with rfl | hpos
    · rw [List.length_eq_zero_iff.mp hlen]
      exact .inl rfl
    · exact .inr (List.append_ne_nil_of_left_ne_nil (hne hpos) new)
  have hanswer := h.answer n _ more hmore hnext
  rw [← hcursor] at hanswer
  refine ⟨_, _, hanswer, ?_⟩
  have hsizes : ∀ i (hi : i < (w.pages ++ [more.take (size n)]).length),
      (w.pages ++ [more.take (size n)])[i].length ≤ size i := by
    intro i hi
    rw [List.length_append, List.length_singleton] at hi
    rcases Nat.lt_succ_iff_lt_or_eq.mp hi with hi | rfl
    · rw [List.getElem_append_left hi]
      exact hw.sizes i hi
    · rw [List.getElem_append_right le_rfl, List.getElem_singleton, hlen]
      exact List.length_take_le _ _
  by_cases hlong : more.length > size n
  · -- a page of `size n` items, and more to come
    have hpage : more.take (size n) ≠ [] := by
      intro hnil
      have := congrArg List.length hnil
      rw [List.length_take, List.length_nil] at this
      have := h.size_pos n
      omega
    have hlast : (w.pages ++ [more.take (size n)]).flatten.getLast? =
        (more.take (size n)).getLast? := by
      rw [flatten_concat, List.getLast?_append_of_ne_nil _ hpage]
    refine ⟨hsizes, fun hend => ?_, fun _ => ⟨?_, ?_, ?_, more.drop (size n), ?_, fun _ => ?_⟩⟩
    · rw [if_pos hlong, List.getLast?_eq_some_getLast hpage] at hend
      cases hend
    · rw [List.length_append, List.length_singleton, hlen]
    · rw [flatten_concat, List.length_append, List.length_take]
      have := h.size_pos n
      omega
    · simp only [if_pos hlong, hlast]
    · simp only [flatten_concat, Nat.add_sub_cancel, hmore, List.append_assoc,
        List.take_append_drop]
    · intro hnil
      have := congrArg List.length hnil
      rw [List.length_drop, List.length_nil] at this
      omega
  · -- the last page
    refine ⟨hsizes, fun _ => ?_, fun hgo => ?_⟩
    · simp only [flatten_concat, List.length_append, List.length_singleton,
        Nat.add_sub_cancel, hlen, hmore, List.take_of_length_le (Nat.le_of_not_gt hlong)]
    · rw [if_neg hlong] at hgo
      cases hgo

/-- **Every walk.** -/
theorem Serves.walk_stands (h : Serves next items size serve) :
    ∀ n, ∃ w, walk serve n = .ok w ∧ Stands next items size n w ∧ w.pages.length ≤ n
  | 0 => ⟨_, rfl, stands_zero, le_rfl⟩
  | n + 1 => by
    obtain ⟨w, hw, hstands, hlen⟩ := h.walk_stands n
    cases hended : w.ended with
    | true =>
      refine ⟨w, ?_, ⟨hstands.sizes, hstands.complete, fun hgo => ?_⟩, by omega⟩
      · rw [walk, hw]
        exact if_pos hended
      · rw [hended] at hgo
        cases hgo
    | false =>
      obtain ⟨page, cursor, hserve, hstep⟩ := h.step hstands hended
      refine ⟨_, ?_, hstep, ?_⟩
      · rw [walk, hw]
        show (if w.ended = true then _ else _) = _
        rw [hended, if_neg Bool.false_ne_true, hserve]
        rfl
      · rw [List.length_append, List.length_singleton]
        omega

/-- **Paging reconstructs the listing.** -/
theorem Serves.reconstructs (h : Serves next items size serve) (n : Nat) :
    ∃ w, walk serve n = .ok w ∧ Reconstructs items size n w := by
  obtain ⟨w, hw, hstands, hlen⟩ := h.walk_stands n
  refine ⟨w, hw, ?_⟩
  cases hended : w.ended with
  | true =>
    have hall := hstands.complete hended
    refine ⟨hstands.sizes, hall ▸ List.prefix_rfl, fun _ => hall, fun _ => ?_,
      fun _ _ => hended⟩
    rw [hall]
    exact h.initial (Nat.zero_le _)
  | false =>
    obtain ⟨hpages, hcount, -, rest, hrest, hmore⟩ := hstands.going hended
    have hbegin : w.pages.flatten <+: items (n - 1) := ⟨rest, hrest.symm⟩
    refine ⟨hstands.sizes, hpages ▸ hbegin, fun hend => ?_, fun hn => ?_, fun hpos hn => ?_⟩
    · rw [hended] at hend
      cases hend
    · exact List.prefix_of_prefix_length_le (h.initial (Nat.zero_le _)) hbegin (by omega)
    · have hpos' := List.length_pos_of_ne_nil (hmore hpos)
      have := congrArg List.length hrest
      rw [List.length_append] at this
      omega

/-! ## 4. A client's loop -/

/-- **A client collects the items** until there is no next cursor.  The first of `requests` requests
is number `i`; nothing else bounds the loop, so without enough of them there is no result. -/
def collect (serve : Nat → Option κ → Except ε (List α × Option κ)) :
    (requests i : Nat) → (cursor : Option κ) → (out : List α) → Except ε (Option (List α))
  | 0, _, _, _ => .ok none
  | requests + 1, i, cursor, out =>
    match serve i cursor with
    | .error e => .error e
    | .ok (items, none) => .ok (some (out ++ items))
    | .ok (items, some next) => collect serve requests (i + 1) (some next) (out ++ items)

/-- What was collected was served. -/
theorem mem_of_collect {x : α} : ∀ {requests i : Nat} {cursor : Option κ} {out result : List α},
    collect serve requests i cursor out = .ok (some result) → x ∈ result →
    x ∈ out ∨ ∃ j cursor page next, serve j cursor = .ok (page, next) ∧ x ∈ page
  | 0, _, _, _, _, h, _ => by
    rw [collect] at h
    cases h
  | requests + 1, i, cursor, out, result, h, hx => by
    rw [collect] at h
    have hpage : ∀ {page next}, serve i cursor = .ok (page, next) → x ∈ out ++ page →
        x ∈ out ∨ ∃ j cursor page next, serve j cursor = .ok (page, next) ∧ x ∈ page := by
      intro page next hserve hx
      rcases List.mem_append.mp hx with hx | hx
      · exact .inl hx
      · exact .inr ⟨i, cursor, page, next, hserve, hx⟩
    split at h
    · cases h
    · next page hserve =>
      obtain rfl := Option.some.inj (Except.ok.inj h)
      exact hpage hserve hx
    · next page next hserve =>
      rcases mem_of_collect h hx with hx | hx
      · exact hpage hserve hx
      · exact .inr hx

/-- The rest of the loop, from where a walk stands. -/
theorem Serves.collect_from (h : Serves next items size serve) {bound : Nat}
    (hbound : ∀ i, (items i).length ≤ bound) (requests : Nat) :
    ∀ {n : Nat} {w : Walk α κ}, Stands next items size n w → w.ended = false →
      bound < n + requests →
      ∃ k ≥ n, collect serve requests n w.cursor w.pages.flatten = .ok (some (items k)) := by
  induction requests with
  | zero =>
    intro n w hw hgoing hfuel
    -- every request has brought an item, so there were too many
    obtain ⟨-, hcount, -, rest, hrest, -⟩ := hw.going hgoing
    have hlen := congrArg List.length hrest
    have := hbound (n - 1)
    rw [List.length_append] at hlen
    omega
  | succ requests ih =>
    intro n w hw hgoing hfuel
    obtain ⟨page, cursor, hserve, hstep⟩ := h.step hw hgoing
    have hlen := (hw.going hgoing).1
    rw [collect, hserve]
    cases cursor with
    | none =>
      have hall := hstep.complete rfl
      refine ⟨n, le_refl n, ?_⟩
      dsimp only at hall ⊢
      rw [← flatten_concat, hall, List.length_append, List.length_singleton, hlen,
        Nat.add_sub_cancel]
    | some cursor =>
      obtain ⟨k, hk, hcollect⟩ := ih hstep rfl (by omega)
      refine ⟨k, by omega, ?_⟩
      rw [flatten_concat] at hcollect
      exact hcollect

/-- **The loop returns the listing** as it is seen by the last request. -/
theorem Serves.collect_eq (h : Serves next items size serve) {bound requests : Nat}
    (hbound : ∀ i, (items i).length ≤ bound) (hfuel : bound < requests) :
    ∃ k, collect serve requests 0 none [] = .ok (some (items k)) := by
  obtain ⟨k, -, hcollect⟩ := h.collect_from hbound requests stands_zero rfl (by omega)
  exact ⟨k, hcollect⟩

/-- The first answer alone decides what its cursor means. -/
theorem collect_congr {requests i : Nat} {cursor cursor' : Option κ} (out : List α)
    (h : serve i cursor = serve i cursor') :
    collect serve requests i cursor out = collect serve requests i cursor' out := by
  cases requests with
  | zero => rfl
  | succ requests => rw [collect, collect, h]

/-- A client that reads the items its own way collects what it makes of them. -/
theorem collect_map {δ : Type*} {serve' : Nat → Option κ → Except δ (List β × Option κ)}
    (f : α → β) (h : ∀ i cursor page next, serve i cursor = .ok (page, next) →
      serve' i cursor = .ok (page.map f, next)) :
    ∀ {requests i : Nat} {cursor : Option κ} {out result : List α},
      collect serve requests i cursor out = .ok (some result) →
      collect serve' requests i cursor (out.map f) = .ok (some (result.map f))
  | 0, _, _, _, _, hcollect => by
    rw [collect] at hcollect
    cases hcollect
  | requests + 1, i, cursor, out, result, hcollect => by
    rw [collect] at hcollect
    rw [collect]
    split at hcollect
    · cases hcollect
    · next page hserve =>
      obtain rfl := Option.some.inj (Except.ok.inj hcollect)
      rw [h i cursor page none hserve]
      dsimp only
      rw [List.map_append]
    · next page next hserve =>
      rw [h i cursor page (some next) hserve]
      dsimp only
      rw [← List.map_append]
      exact collect_map f h hcollect

end Paging
