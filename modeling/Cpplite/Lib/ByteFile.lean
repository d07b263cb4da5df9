import Mathlib.Tactic

/-!
Files as lists of bytes that are read and written at an offset. What lies between the end
of a file and a write behind it is zero.
-/
namespace ByteFile

variable {B : Type} [Zero B]

/-- `n` bytes at the offset, or as many as there are. -/
def pread (content : List B) (n offset : Nat) : List B := (content.drop offset).take n

/-- At least `size` bytes. -/
def padTo (content : List B) (size : Nat) : List B :=
  content ++ List.replicate (size - content.length) 0

def pwrite (content data : List B) (offset : Nat) : List B :=
  match data with
  | [] => content
  | b :: bs => (padTo content offset).take offset ++ b :: bs ++ content.drop (offset + (b :: bs).length)

variable {content data : List B} {n offset size i j : Nat}

theorem length_padTo : (padTo content size).length = max content.length size := by
  rw [padTo, List.length_append, List.length_replicate]
  omega

theorem padTo_of_le (h : size ≤ content.length) : padTo content size = content := by
  rw [padTo, Nat.sub_eq_zero_of_le h, List.replicate_zero, List.append_nil]

theorem padTo_nil (n : Nat) : padTo ([] : List B) n = List.replicate n 0 := by
  rw [padTo, List.nil_append, List.length_nil, Nat.sub_zero]

theorem pwrite_of_ne_nil (h : data ≠ []) : pwrite content data offset =
    (padTo content offset).take offset ++ data ++ content.drop (offset + data.length) := by
  cases data with
  | nil => exact absurd rfl h
  | cons b bs => rfl

theorem length_pwrite (h : data ≠ []) :
    (pwrite content data offset).length = max content.length (offset + data.length) := by
  rw [pwrite_of_ne_nil h]
  simp only [List.length_append, List.length_take, List.length_drop, length_padTo]
  omega

theorem length_pwrite_inside (h : offset + data.length ≤ content.length) :
    (pwrite content data offset).length = content.length := by
  cases data with
  | nil => rfl
  | cons b bs =>
    rw [length_pwrite (List.cons_ne_nil b bs)]
    omega

/-- A write behind the old end does not leave a hole, so it keeps the bytes before it. -/
theorem getElem?_pwrite_left (hi : i < offset) (hc : i < content.length) :
    (pwrite content data offset)[i]? = content[i]? := by
  by_cases h : data = []
  · subst h
    rfl
  · have hlen : i < (padTo content offset).length := by
      rw [length_padTo]
      omega
    rw [pwrite_of_ne_nil h, List.append_assoc, List.getElem?_append_left]
    · rw [List.getElem?_take_of_lt hi, padTo, List.getElem?_append_left hc]
    · rw [List.length_take]
      omega

theorem getElem?_pwrite_right (hi : offset + data.length ≤ i) :
    (pwrite content data offset)[i]? = content[i]? := by
  by_cases h : data = []
  · subst h
    rfl
  · have hfront : ((padTo content offset).take offset ++ data).length = offset + data.length := by
      rw [List.length_append, List.length_take, length_padTo]
      omega
    rw [pwrite_of_ne_nil h, List.getElem?_append_right (by rw [hfront]; exact hi), hfront,
      List.getElem?_drop, Nat.add_sub_cancel' hi]

theorem pread_pwrite_self : pread (pwrite content data offset) data.length offset = data := by
  by_cases h : data = []
  · subst h
    simp [pread]
  · have hfront : ((padTo content offset).take offset).length = offset := by
      rw [List.length_take, length_padTo]
      omega
    rw [pread, pwrite_of_ne_nil h, List.append_assoc, List.drop_left' hfront, List.take_left]

omit [Zero B] in
theorem getElem?_pread : (pread content n offset)[i]? = if i < n then content[offset + i]? else none := by
  rw [pread, List.getElem?_take, List.getElem?_drop]

/-- Bytes that were there and are not written stay as they are. -/
theorem pread_pwrite_of_disjoint (hd : j + n ≤ offset ∨ offset + data.length ≤ j)
    (hc : j + n ≤ content.length) :
    pread (pwrite content data offset) n j = pread content n j := by
  apply List.ext_getElem?
  intro i
  rw [getElem?_pread, getElem?_pread]
  split_ifs with hi
  · rcases hd with hd | hd
    · exact getElem?_pwrite_left (by omega) (by omega)
    · exact getElem?_pwrite_right (by omega)
  · rfl

omit [Zero B] in
theorem pread_pread (h : j + n ≤ size) : pread (pread content size offset) n j =
    pread content n (offset + j) := by
  rw [pread, pread, pread, List.drop_take, List.drop_drop, List.take_take, Nat.min_eq_left (by omega)]

/-- Within a write stands what was written. -/
theorem pread_pwrite_inside (h : j + n ≤ data.length) :
    pread (pwrite content data offset) n (offset + j) = pread data n j := by
  rw [← pread_pread h, pread_pwrite_self]

omit [Zero B] in
theorem length_pread (h : offset + n ≤ content.length) : (pread content n offset).length = n := by
  rw [pread, List.length_take, List.length_drop]
  omega

/-! ### Pages -/

section Pages

variable {pages : List (List B)} {page : List B} {k off : Nat}

omit [Zero B] in
theorem length_flatten_pages (h : ∀ page ∈ pages, page.length = size) :
    pages.flatten.length = pages.length * size := by
  induction pages with
  | nil => simp
  | cons page pages ih =>
    rw [List.flatten_cons, List.length_append, List.length_cons, h page List.mem_cons_self,
      ih (fun q hq => h q (List.mem_cons_of_mem _ hq)), Nat.succ_mul, Nat.add_comm]

omit [Zero B] in
/-- A page is where its number times the size of a page is. -/
theorem pread_flatten (h : ∀ page ∈ pages, page.length = size) (hk : pages[k]? = some page) :
    pread pages.flatten size (k * size) = page := by
  induction pages generalizing k with
  | nil => cases hk
  | cons first pages ih =>
    have hfirst : first.length = size := h first List.mem_cons_self
    cases k with
    | zero =>
      cases hk
      rw [pread, Nat.zero_mul, List.drop_zero, List.flatten_cons, List.take_left' hfirst]
    | succ k =>
      rw [pread, List.flatten_cons, Nat.succ_mul, Nat.add_comm, ← List.drop_drop,
        List.drop_left' hfirst]
      exact ih (fun q hq => h q (List.mem_cons_of_mem _ hq)) hk

theorem pwrite_append_left {front : List B} :
    pwrite (front ++ content) data (front.length + offset) = front ++ pwrite content data offset := by
  by_cases hd : data = []
  · subst hd
    rfl
  · have hpad : padTo (front ++ content) (front.length + offset) = front ++ padTo content offset := by
      rw [padTo, padTo, List.length_append, Nat.add_sub_add_left, List.append_assoc]
    rw [pwrite_of_ne_nil hd, pwrite_of_ne_nil hd, hpad, List.take_length_add_append, Nat.add_assoc,
      List.drop_length_add_append, List.append_assoc, List.append_assoc, List.append_assoc]

theorem pwrite_append_right {rest : List B} (h : offset + data.length ≤ content.length) :
    pwrite (content ++ rest) data offset = pwrite content data offset ++ rest := by
  by_cases hd : data = []
  · subst hd
    rfl
  · rw [pwrite_of_ne_nil hd, pwrite_of_ne_nil hd, padTo_of_le (by rw [List.length_append]; omega),
      padTo_of_le (by omega), List.take_append_of_le_length (by omega),
      List.drop_append_of_le_length h, List.append_assoc, List.append_assoc, List.append_assoc]

/-- A write inside a page changes that page. -/
theorem pwrite_flatten (h : ∀ page ∈ pages, page.length = size) (hk : pages[k]? = some page)
    (hoff : off + data.length ≤ size) : pwrite pages.flatten data (k * size + off) =
      (pages.set k (pwrite page data off)).flatten := by
  induction pages generalizing k with
  | nil => cases hk
  | cons first pages ih =>
    have hfirst : first.length = size := h first List.mem_cons_self
    cases k with
    | zero =>
      cases hk
      rw [Nat.zero_mul, Nat.zero_add, List.flatten_cons, pwrite_append_right (by omega),
        List.set_cons_zero, List.flatten_cons]
    | succ k =>
      have hpos : (k + 1) * size + off = first.length + (k * size + off) := by
        rw [hfirst, Nat.succ_mul]
        omega
      rw [hpos, List.flatten_cons, pwrite_append_left,
        ih (fun q hq => h q (List.mem_cons_of_mem _ hq)) hk, List.set_cons_succ, List.flatten_cons]

/-- A write at the end is a page more. -/
theorem pwrite_flatten_end (h : ∀ page ∈ pages, page.length = size) :
    pwrite pages.flatten data (pages.length * size) = (pages ++ [data]).flatten := by
  have hend : pwrite (pages.flatten ++ []) data (pages.flatten.length + 0) =
      pages.flatten ++ pwrite [] data 0 := pwrite_append_left
  have hnew : pwrite [] data 0 = data := by
    cases data with
    | nil => rfl
    | cons b bs => simp [pwrite, padTo]
  rw [List.append_nil, Nat.add_zero, length_flatten_pages h, hnew] at hend
  rw [hend, List.flatten_append, List.flatten_singleton]

theorem padTo_flatten (h : ∀ page ∈ pages, page.length = size) :
    padTo pages.flatten (k * size) =
      (pages ++ List.replicate (k - pages.length) (List.replicate size 0)).flatten := by
  rw [padTo, length_flatten_pages h, ← Nat.sub_mul, List.flatten_append, List.flatten_replicate_replicate]

/-- A write behind the end leaves pages of zeros between. -/
theorem pwrite_flatten_beyond (h : ∀ page ∈ pages, page.length = size) (hk : pages.length ≤ k)
    (hd : data ≠ []) : pwrite pages.flatten data (k * size) =
      (pages ++ List.replicate (k - pages.length) (List.replicate size 0) ++ [data]).flatten := by
  have hmul : pages.length * size ≤ k * size := Nat.mul_le_mul_right size hk
  have hlen : (padTo pages.flatten (k * size)).length = k * size := by
    rw [length_padTo, length_flatten_pages h]
    omega
  rw [pwrite_of_ne_nil hd, List.take_of_length_le (by omega), List.drop_eq_nil_of_le,
    padTo_flatten h, List.append_nil, @List.flatten_append _ _ [data], List.flatten_singleton]
  rw [length_flatten_pages h]
  omega

theorem pwrite_front (h : data.length ≤ content.length) :
    pwrite content data 0 = data ++ content.drop data.length := by
  cases data with
  | nil => simp [pwrite]
  | cons b bs => simp [pwrite]

theorem pwrite_whole (h : data.length = content.length) : pwrite content data 0 = data := by
  cases data with
  | nil => simpa [pwrite, List.length_eq_zero_iff] using h.symm
  | cons b bs => simp [pwrite, ← h]

end Pages

/-! ### Pages in several files -/

section Chunks

variable {α : Type} {l : List α} {a : α} {n i j p : Nat}

/-- The `i`-th file, with `n` pages a file. -/
def chunk (n : Nat) (l : List α) (i : Nat) : List α := (l.drop (i * n)).take n

theorem getElem?_chunk : (chunk n l i)[j]? = if j < n then l[i * n + j]? else none := by
  rw [chunk, List.getElem?_take, List.getElem?_drop]

theorem getElem?_chunk_div (hn : 0 < n) : (chunk n l (p / n))[p % n]? = l[p]? := by
  rw [getElem?_chunk, if_pos (Nat.mod_lt _ hn), Nat.mul_comm, Nat.div_add_mod]

theorem length_chunk : (chunk n l i).length = min n (l.length - i * n) := by
  rw [chunk, List.length_take, List.length_drop]

theorem mem_of_mem_chunk (h : a ∈ chunk n l i) : a ∈ l :=
  List.mem_of_mem_drop (List.mem_of_mem_take h)

/-- A place in a file is a place in the whole. -/
theorem div_eq_of_place (hj : j < n) : (i * n + j) / n = i ∧ (i * n + j) % n = j := by
  have hn : 0 < n := by omega
  rw [Nat.mul_comm, Nat.mul_add_div hn, Nat.div_eq_of_lt hj, Nat.mul_add_mod, Nat.mod_eq_of_lt hj]
  exact ⟨rfl, rfl⟩

theorem chunk_set_self (hn : 0 < n) :
    chunk n (l.set p a) (p / n) = (chunk n l (p / n)).set (p % n) a := by
  apply List.ext_getElem?
  intro j
  rw [getElem?_chunk, List.getElem?_set, List.getElem?_set, getElem?_chunk, length_chunk]
  have hp : p / n * n + p % n = p := by rw [Nat.mul_comm, Nat.div_add_mod]
  have hmod := Nat.mod_lt p hn
  split_ifs <;> first | rfl | omega

theorem chunk_set_of_ne (hi : i ≠ p / n) : chunk n (l.set p a) i = chunk n l i := by
  apply List.ext_getElem?
  intro j
  rw [getElem?_chunk, getElem?_chunk]
  split_ifs with hj
  · rw [List.getElem?_set_ne]
    rintro rfl
    exact hi (div_eq_of_place hj).1.symm
  · rfl

theorem chunk_concat_self (hn : 0 < n) :
    chunk n (l ++ [a]) (l.length / n) = chunk n l (l.length / n) ++ [a] := by
  have hp : l.length / n * n + l.length % n = l.length := by rw [Nat.mul_comm, Nat.div_add_mod]
  have hmod := Nat.mod_lt l.length hn
  rw [chunk, chunk, List.drop_append_of_le_length (by omega), List.take_of_length_le,
    List.take_of_length_le]
  · rw [List.length_drop]
    omega
  · rw [List.length_append, List.length_drop, List.length_singleton]
    omega

theorem chunk_concat_of_ne (hi : i ≠ l.length / n) : chunk n (l ++ [a]) i = chunk n l i := by
  apply List.ext_getElem?
  intro j
  rw [getElem?_chunk, getElem?_chunk]
  split_ifs with hj
  · have hne : i * n + j ≠ l.length := fun heq => hi (heq ▸ (div_eq_of_place hj).1.symm)
    rw [List.getElem?_append]
    split_ifs with hlt
    · rfl
    · rw [List.getElem?_eq_none (by simp; omega), List.getElem?_eq_none (by omega)]
  · rfl

end Chunks

end ByteFile
