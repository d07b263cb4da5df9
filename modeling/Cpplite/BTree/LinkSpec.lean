import Cpplite.BTree.Rep

/-!
The links between leaves. Relinking a page leaves its cells alone, so it is invisible
to everything but the leaf chain; a null neighbour is skipped.
-/
namespace Cpplite

open Exec Search Linked HeightTree

namespace Disk

variable {d : Disk} {p q x : Nat} {ids : List Nat}

/-- `set_next_page` on a leaf page; nothing on any other page. -/
def setNext (d : Disk) (q x : Nat) : Disk :=
  match d.page q with
  | .leaf cells prev _ => d.set q (.leaf cells prev x)
  | _ => d

/-- `set_prev_page` on a leaf page; nothing on any other page. -/
def setPrev (d : Disk) (q x : Nat) : Disk :=
  match d.page q with
  | .leaf cells _ next => d.set q (.leaf cells x next)
  | _ => d

theorem setNext_eq {cells : List LeafCell} {a b : Nat} (h : d.page q = .leaf cells a b) :
    d.setNext q x = d.set q (.leaf cells a x) := by
  simp [setNext, h]

theorem setPrev_eq {cells : List LeafCell} {a b : Nat} (h : d.page q = .leaf cells a b) :
    d.setPrev q x = d.set q (.leaf cells x b) := by
  simp [setPrev, h]

theorem setNext_null (hg : d.Good) : d.setNext nullPage x = d := by
  simp [setNext, nullPage, hg.zero]

theorem setPrev_null (hg : d.Good) : d.setPrev nullPage x = d := by
  simp [setPrev, nullPage, hg.zero]

theorem setNext_page_of_ne (h : p ≠ q) : (d.setNext q x).page p = d.page p := by
  unfold setNext
  split
  · exact set_page_of_ne h
  · rfl

theorem setPrev_page_of_ne (h : p ≠ q) : (d.setPrev q x).page p = d.page p := by
  unfold setPrev
  split
  · exact set_page_of_ne h
  · rfl

theorem setNext_core : ((d.setNext q x).page p).core = (d.page p).core := by
  by_cases hp : p = q
  · subst hp
    unfold setNext
    split
    · rename_i h
      simp [h, LogicalPage.core]
    · rfl
  · rw [setNext_page_of_ne hp]

theorem setPrev_core : ((d.setPrev q x).page p).core = (d.page p).core := by
  by_cases hp : p = q
  · subst hp
    unfold setPrev
    split
    · rename_i h
      simp [h, LogicalPage.core]
    · rfl
  · rw [setPrev_page_of_ne hp]

theorem setNext_links : (d.setNext q x).links p =
    if p = q then (d.links q).map (fun e => (e.1, x)) else d.links p := by
  by_cases hp : p = q
  · subst hp
    rw [if_pos rfl]
    cases h : d.page p <;> simp [setNext, links, h]
  · rw [if_neg hp]
    exact links_congr (setNext_page_of_ne hp)

theorem setPrev_links : (d.setPrev q x).links p =
    if p = q then (d.links q).map (fun e => (x, e.2)) else d.links p := by
  by_cases hp : p = q
  · subst hp
    rw [if_pos rfl]
    cases h : d.page p <;> simp [setPrev, links, h]
  · rw [if_neg hp]
    exact links_congr (setPrev_page_of_ne hp)

theorem Evolves.setNext (hg : d.Good) (hq : q = nullPage ∨ q ∈ ids) :
    d.Evolves (d.setNext q x) ids := by
  rcases hq with rfl | hq
  · rw [setNext_null hg]
    exact .refl hg
  · unfold Disk.setNext
    split
    · rename_i h
      exact .set hg (by rw [h]; trivial) hq
    · exact .refl hg

theorem Evolves.setPrev (hg : d.Good) (hq : q = nullPage ∨ q ∈ ids) :
    d.Evolves (d.setPrev q x) ids := by
  rcases hq with rfl | hq
  · rw [setPrev_null hg]
    exact .refl hg
  · unfold Disk.setPrev
    split
    · rename_i h
      exact .set hg (by rw [h]; trivial) hq
    · exact .refl hg

theorem Good.setNext (hg : d.Good) : (d.setNext q x).Good := by
  have h : d.Evolves (d.setNext q x) [q] := .setNext hg (.inr (by simp))
  exact h.good

theorem Good.setPrev (hg : d.Good) : (d.setPrev q x).Good := by
  have h : d.Evolves (d.setPrev q x) [q] := .setPrev hg (.inr (by simp))
  exact h.good

@[simp] theorem setNext_total : (d.setNext q x).total = d.total := by
  unfold setNext
  split <;> rfl

@[simp] theorem setPrev_total : (d.setPrev q x).total = d.total := by
  unfold setPrev
  split <;> rfl

end Disk

theorem leaf_of_core {d d' : Disk} {q : Nat} (hc : (d'.page q).core = (d.page q).core)
    (h : q = nullPage ∨ ∃ cells a b, d.page q = .leaf cells a b) :
    q = nullPage ∨ ∃ cells a b, d'.page q = .leaf cells a b := by
  refine h.imp_right ?_
  rintro ⟨cells, a, b, h⟩
  obtain ⟨a', b', h'⟩ := Disk.IsLeaf.frame (l := ⟨q, cells⟩) ⟨a, b, h⟩ hc
  exact ⟨cells, a', b', h'⟩

section

variable {d : Disk} {cur : BTreeCursor} {q x : Nat}

/-- Relink the page after `q`, if there is a page `q`. -/
theorem relinkNext_runs {Q : Unit → Disk → BTreeCursor → Prop} (hg : d.Good)
    (hq : q = nullPage ∨ ∃ cells a b, d.page q = .leaf cells a b) {z : BTreeM Unit}
    (hz : ∀ cells a b, d.page q = .leaf cells a b → Steps z d cur () (d.set q (.leaf cells a x)) cur)
    (hQ : Q () (d.setNext q x) cur) : Runs (when (q ≠ nullPage) z) d cur Q := by
  refine Runs.when ?_ ?_
  · intro hne
    obtain ⟨cells, a, b, h⟩ := hq.resolve_left hne
    refine (hz cells a b h).mono ?_
    rintro _ _ _ ⟨-, rfl, rfl⟩
    rw [← Disk.setNext_eq h]
    exact hQ
  · intro he
    rw [not_not.mp he, Disk.setNext_null hg] at hQ
    exact hQ

/-- Relink the page before `q`, if there is a page `q`. -/
theorem relinkPrev_runs {Q : Unit → Disk → BTreeCursor → Prop} (hg : d.Good)
    (hq : q = nullPage ∨ ∃ cells a b, d.page q = .leaf cells a b) {z : BTreeM Unit}
    (hz : ∀ cells a b, d.page q = .leaf cells a b → Steps z d cur () (d.set q (.leaf cells x b)) cur)
    (hQ : Q () (d.setPrev q x) cur) : Runs (when (q ≠ nullPage) z) d cur Q := by
  refine Runs.when ?_ ?_
  · intro hne
    obtain ⟨cells, a, b, h⟩ := hq.resolve_left hne
    refine (hz cells a b h).mono ?_
    rintro _ _ _ ⟨-, rfl, rfl⟩
    rw [← Disk.setPrev_eq h]
    exact hQ
  · intro he
    rw [not_not.mp he, Disk.setPrev_null hg] at hQ
    exact hQ

end

/-! ### The chain after a split and after a merge -/

section Chain

variable {d e : Disk} {L R : List Nat} {p left right prev next : Nat}

/-- Two new leaves linked in where `p` was. -/
def Disk.linkHalves (e : Disk) (prev next left right : Nat) : Disk :=
  (((((e.setNext prev left).setNext left right).setNext right next).setPrev next right).setPrev
    right left).setPrev left prev

theorem Disk.linkHalves_core {q : Nat} :
    ((e.linkHalves prev next left right).page q).core = (e.page q).core := by
  simp only [Disk.linkHalves, Disk.setPrev_core, Disk.setNext_core]

theorem Disk.linkHalves_total : (e.linkHalves prev next left right).total = e.total := by
  simp [Disk.linkHalves]

theorem Disk.Good.linkHalves (hg : e.Good) : (e.linkHalves prev next left right).Good :=
  hg.setNext.setNext.setNext.setPrev.setPrev.setPrev

theorem Disk.Evolves.linkHalves {s : List Nat} (hg : e.Good) (hp : prev = nullPage ∨ prev ∈ s)
    (hn : next = nullPage ∨ next ∈ s) (hl : left ∈ s) (hr : right ∈ s) :
    e.Evolves (e.linkHalves prev next left right) s := by
  have h1 := Disk.Evolves.setNext (x := left) hg hp
  have h2 := Disk.Evolves.setNext (x := right) h1.good (.inr hl)
  have h3 := Disk.Evolves.setNext (x := next) h2.good (.inr hr)
  have h4 := Disk.Evolves.setPrev (x := right) h3.good hn
  have h5 := Disk.Evolves.setPrev (x := left) h4.good (.inr hr)
  have h6 := Disk.Evolves.setPrev (x := prev) h5.good (.inr hl)
  have htrans := fun {a b c : Disk} (hga : a.Good) (hab : a.Evolves b s) (hbc : b.Evolves c s) =>
    hab.trans hga hbc (fun q hq => .inl hq)
  exact htrans hg (htrans hg (htrans hg (htrans hg (htrans hg h1 h2) h3) h4) h5) h6

theorem segment_linkHalves (hs : Segment d.links nullPage (L ++ p :: R) nullPage)
    (hnd : (L ++ p :: R).Nodup) (h0 : nullPage ∉ L ++ p :: R)
    (hl : left ∉ L ++ p :: R) (hr : right ∉ L ++ p :: R) (hl0 : left ≠ nullPage)
    (hr0 : right ≠ nullPage) (hlr : left ≠ right)
    (hsame : ∀ q ∈ L ++ p :: R, e.links q = d.links q)
    (hel : e.links left = some (nullPage, nullPage))
    (her : e.links right = some (nullPage, nullPage)) :
    Segment (e.linkHalves (L.getLastD nullPage) (R.headD nullPage) left right).links nullPage
      (L ++ left :: right :: R) nullPage := by
  obtain ⟨hsL, hsp⟩ := segment_append.mp hs
  obtain ⟨hp, hsR⟩ := hsp
  rw [List.nodup_append] at hnd
  obtain ⟨hndL, hndR, hdisj⟩ := hnd
  have hndR := (List.nodup_cons.mp hndR).2
  simp only [List.mem_append, List.mem_cons, not_or] at h0 hl hr hsame
  have hprev := getLastD_mem_or L nullPage
  have hnext := headD_mem_or R nullPage
  generalize hP : L.getLastD nullPage = P at *
  generalize hN : R.headD nullPage = N at *
  have hpl : left ≠ P ∧ right ≠ P := by
    constructor <;> (rintro rfl; tauto)
  have hnl : left ≠ N ∧ right ≠ N := by
    constructor <;> (rintro rfl; tauto)
  have hL : ∀ q ∈ L, q ≠ left ∧ q ≠ right ∧ q ≠ N := by
    intro q hq
    refine ⟨by rintro rfl; exact hl.1 hq, by rintro rfl; exact hr.1 hq, ?_⟩
    rintro rfl
    rcases hnext with rfl | h
    · exact h0.1 hq
    · exact hdisj _ hq _ (List.mem_cons_of_mem _ h) rfl
  have hR : ∀ q ∈ R, q ≠ left ∧ q ≠ right ∧ q ≠ P := by
    intro q hq
    refine ⟨by rintro rfl; exact hl.2.2 hq, by rintro rfl; exact hr.2.2 hq, ?_⟩
    rintro rfl
    rcases hprev with rfl | h
    · exact h0.2.2 hq
    · exact hdisj _ h _ (List.mem_cons_of_mem _ hq) rfl
  refine segment_append.mpr ⟨?_, ?_, ?_, ?_⟩
  · refine hsL.relink_next (z := nullPage) hndL ?_
    intro q hq
    obtain ⟨h1, h2, h3⟩ := hL q hq
    simp only [Disk.linkHalves, Disk.setPrev_links, Disk.setNext_links, h1, h2, h3, if_false, hP]
    split
    · rename_i h
      rw [← h, hsame q (.inl hq), List.headD_cons]
    · exact hsame q (.inl hq)
  · simp only [Disk.linkHalves, Disk.setPrev_links, Disk.setNext_links, hel, hlr, hpl.1, hnl.1,
      if_true, if_false, Option.map_some, List.headD_cons, hP]
  · simp only [Disk.linkHalves, Disk.setPrev_links, Disk.setNext_links, her, Ne.symm hlr, hpl.2,
      hnl.2, if_true, if_false, Option.map_some, hN]
  · refine hsR.relink_prev (z := nullPage) hndR ?_
    intro q hq
    obtain ⟨h1, h2, h3⟩ := hR q hq
    rw [hN]
    simp only [Disk.linkHalves, Disk.setPrev_links, Disk.setNext_links, h1, h2, h3,
      Ne.symm hnl.1, Ne.symm hnl.2, if_false]
    by_cases hqn : q = N
    · subst hqn
      simp only [if_true, h3, if_false]
      rw [hsame q (.inr (.inr hq))]
    · simp only [hqn, if_false]
      exact hsame q (.inr (.inr hq))

/-- The leaf before `q` linked out, `prev` being the one before that. -/
def Disk.unlinkLeft (e : Disk) (prev q : Nat) : Disk := (e.setPrev q prev).setNext prev q

theorem Disk.unlinkLeft_core {q x : Nat} : ((e.unlinkLeft prev q).page x).core = (e.page x).core := by
  rw [Disk.unlinkLeft, Disk.setNext_core, Disk.setPrev_core]

theorem Disk.Evolves.unlinkLeft {ids : List Nat} {q : Nat} (hg : e.Good)
    (hp : prev = nullPage ∨ prev ∈ ids) (hq : q ∈ ids) : e.Evolves (e.unlinkLeft prev q) ids := by
  have h1 := Disk.Evolves.setPrev (x := prev) hg (.inr hq)
  exact h1.trans hg (Disk.Evolves.setNext h1.good hp) (fun _ hx => .inl hx)

theorem segment_unlinkLeft {q : Nat} (hs : Segment d.links nullPage (L ++ p :: q :: R) nullPage)
    (hnd : (L ++ p :: q :: R).Nodup) (h0 : nullPage ∉ L ++ p :: q :: R)
    (hsame : ∀ x ∈ L ++ p :: q :: R, e.links x = d.links x) :
    Segment (e.unlinkLeft (L.getLastD nullPage) q).links nullPage (L ++ q :: R) nullPage := by
  obtain ⟨hsL, -, hq, hsR⟩ := segment_append.mp hs
  rw [List.nodup_append] at hnd
  obtain ⟨hndL, hndR, hdisj⟩ := hnd
  obtain ⟨-, hndR⟩ := List.nodup_cons.mp hndR
  obtain ⟨hqR, -⟩ := List.nodup_cons.mp hndR
  simp only [List.mem_append, List.mem_cons, not_or] at h0 hsame hdisj
  have hprev := getLastD_mem_or L nullPage
  generalize hP : L.getLastD nullPage = P at *
  have hL : ∀ x ∈ L, x ≠ q := fun x hx => hdisj x hx q (.inr (.inl rfl))
  have hP' : ∀ x, x = q ∨ x ∈ R → x ≠ P := by
    rintro x hx rfl
    rcases hprev with rfl | h
    · rcases hx with rfl | hx
      · exact h0.2.2.1 rfl
      · exact h0.2.2.2 hx
    · exact hdisj x h x (.inr hx) rfl
  refine segment_append.mpr ⟨?_, ?_, ?_⟩
  · refine hsL.relink_next (z := nullPage) hndL ?_
    intro x hx
    simp only [Disk.unlinkLeft, Disk.setPrev_links, Disk.setNext_links, hL x hx, if_false, hP]
    split
    · rename_i h
      rw [← h, if_neg (hL x hx), hsame x (.inl hx), List.headD_cons]
    · exact hsame x (.inl hx)
  · simp only [Disk.unlinkLeft, Disk.setPrev_links, Disk.setNext_links, hP' q (.inl rfl), if_true,
      if_false, hsame q (.inr (.inr (.inl rfl))), hq, Option.map_some, hP]
  · refine (segment_congr ?_).mpr hsR
    intro x hx
    have hxq : x ≠ q := by
      rintro rfl
      exact hqR hx
    simp only [Disk.unlinkLeft, Disk.setPrev_links, Disk.setNext_links, hP' x (.inr hx), hxq, if_false]
    exact hsame x (.inr (.inr (.inr hx)))

end Chain

end Cpplite
