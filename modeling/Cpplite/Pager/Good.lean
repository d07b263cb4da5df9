import Cpplite.Pager.OverflowSpec

/-!
Files in good order: a header, a free list, and nothing past the end.

`Evolves` is the frame of every operation on a tree: pages in use that are not the
operation's own keep their content.
-/
namespace Cpplite

open Exec Search Linked

/-- A page of some tree. -/
def LogicalPage.IsTree : LogicalPage → Prop
  | .node _ _ | .leaf _ _ _ => True
  | _ => False

/-- A page that a structure owns. -/
def LogicalPage.InUse (l : LogicalPage) : Prop := l ≠ .none ∧ ∀ q, l ≠ .free q

theorem LogicalPage.IsTree.inUse {l : LogicalPage} (h : l.IsTree) : l.InUse := by
  cases l <;> simp_all [LogicalPage.IsTree, LogicalPage.InUse]

/-- What every operation keeps of the whole file. -/
structure Disk.Good (d : Disk) : Prop where
  sound : d.Sound
  zero : d.page 0 = .none
  free : ∃ fl, d.FreeList fl

/-- The file of a new pager is in good order. -/
theorem fresh_good : Pager.fresh.disk.Good :=
  ⟨⟨rfl, ⟨_, rfl⟩, fun _ => disk_page_le⟩, rfl, [], _, rfl, rfl⟩

/-- `next_oid` as the first page has it. -/
def Disk.nextOid (d : Disk) : DefaultPagerKey :=
  match d.page 1 with
  | .first hd => hd.nextOid
  | _ => 0

namespace Disk

variable {d d' d'' : Disk} {p q : Nat} {l : LogicalPage} {hd : PagerFirstPageHeader}
  {ids ids' fl : List Nat}

theorem Good.ne_zero (h : d.Good) (hp : d.page p ≠ .none) : p ≠ 0 := by
  rintro rfl
  exact hp h.zero

theorem Good.ne_one (h : d.Good) (hp : (d.page p).IsTree) : p ≠ 1 := by
  rintro rfl
  obtain ⟨hd, h1⟩ := h.sound.first
  rw [h1] at hp
  exact hp

theorem Good.le_total (h : d.Good) (hp : (d.page p).InUse) : p ≤ d.total :=
  h.sound.bounded p hp.1

theorem FreeList.notMem (h : d.FreeList fl) (hp : ∀ q, d.page p ≠ .free q) : p ∉ fl := by
  obtain ⟨hd, -, hc⟩ := h
  intro hm
  obtain ⟨-, l₂, -, -, -, q, hq, -⟩ := hc.of_mem hm
  exact hp q hq

theorem FreeList.set (h : d.FreeList fl) (h1 : p ≠ 1) (hp : ∀ q, d.page p ≠ .free q) :
    (d.set p l).FreeList fl := by
  obtain ⟨hd, hf, hc⟩ := h
  refine ⟨hd, by rw [set_page_of_ne (Ne.symm h1), hf], freeChain_frame hc ?_⟩
  intro a ha
  refine set_page_of_ne ?_
  rintro rfl
  exact FreeList.notMem ⟨hd, hf, hc⟩ hp ha

theorem Good.set (h : d.Good) (hp : (d.page p).IsTree) : (d.set p l).Good := by
  have h1 := h.ne_one hp
  have h0 := h.ne_zero hp.inUse.1
  obtain ⟨fl, hf⟩ := h.free
  exact ⟨h.sound.set h1 (h.le_total hp.inUse), by rw [set_page_of_ne (Ne.symm h0), h.zero],
    fl, hf.set h1 hp.inUse.2⟩

theorem FreeList.create (hs : d.Sound) (hf : d.FreeList fl) (h1 : d.page 1 = .first hd) :
    (d.create l hd).FreeList fl := by
  have hb := free_bounds hs hf
  obtain ⟨hd', h1', hc⟩ := hf
  rw [h1] at h1'
  cases h1'
  refine ⟨{ hd with numPages := d.total + 1 }, create_page_one, freeChain_frame hc ?_⟩
  intro a ha
  obtain ⟨-, ha1, hle, -⟩ := hb a ha
  exact create_page_of_ne ha1 (by omega)

theorem Good.create (h : d.Good) (h1 : d.page 1 = .first hd) : (d.create l hd).Good := by
  obtain ⟨fl, hf⟩ := h.free
  have hpos := h.sound.pos
  refine ⟨h.sound.create, ?_, fl, hf.create h.sound h1⟩
  rw [create_page_of_ne (by decide) (by omega), h.zero]

/-- The file after `p` went to the head of the free list. -/
def free (d : Disk) (p : Nat) (hd : PagerFirstPageHeader) : Disk :=
  (d.set 1 (.first { hd with freePageHead := p })).set p (.free hd.freePageHead)

theorem free_page_of_ne (h1 : q ≠ 1) (hp : q ≠ p) : (d.free p hd).page q = d.page q := by
  rw [free, set_page_of_ne hp, set_page_of_ne h1]

theorem FreeList.free (h : d.FreeList fl) (h1 : d.page 1 = .first hd) (hp1 : p ≠ 1) (hp0 : p ≠ 0)
    (hp : p ∉ fl) : (d.free p hd).FreeList (p :: fl) := by
  obtain ⟨hd', h1', hc⟩ := h
  rw [h1] at h1'
  cases h1'
  refine ⟨{ hd with freePageHead := p }, ?_, rfl, hp0, hd.freePageHead, ?_, ?_⟩
  · rw [Disk.free, set_page_of_ne (Ne.symm hp1), set_page_self]
  · simp [Disk.free, FreeNext]
  · refine freeChain_frame hc ?_
    intro a ha
    obtain ⟨-, l₂, -, -, -, q, hq, -⟩ := hc.of_mem ha
    refine free_page_of_ne ?_ ?_
    · rintro rfl
      rw [FreeNext, h1] at hq
      cases hq
    · rintro rfl
      exact hp ha

/-- A page of the file that is not on the list can go there. -/
theorem Good.push (h : d.Good) (h1 : d.page 1 = .first hd) (hp0 : p ≠ 0) (hp1 : p ≠ 1)
    (hle : p ≤ d.total) (hnot : ∀ fl, d.FreeList fl → p ∉ fl) : (d.free p hd).Good := by
  obtain ⟨fl, hf⟩ := h.free
  refine ⟨?_, ?_, p :: fl, hf.free h1 hp1 hp0 (hnot fl hf)⟩
  · exact h.sound.set_first.set hp1 hle
  · rw [free_page_of_ne (by decide) (Ne.symm hp0), h.zero]

theorem Good.free' (h : d.Good) (h1 : d.page 1 = .first hd) (hp : (d.page p).IsTree) :
    (d.free p hd).Good :=
  h.push h1 (h.ne_zero hp.inUse.1) (h.ne_one hp) (h.le_total hp.inUse)
    (fun _ hf => hf.notMem hp.inUse.2)

/-- The file after a new page went to the head of the free list. -/
def appendFree (d : Disk) (hd : PagerFirstPageHeader) : Disk :=
  ({ d.append (.free hd.freePageHead) with total := d.total + 1 } : Disk).set 1
    (.first { hd with freePageHead := d.total + 1 })

theorem appendFree_page_of_ne (h1 : q ≠ 1) (hq : q ≠ d.size + 1) :
    (d.appendFree hd).page q = d.page q := by
  rw [appendFree, set_page_of_ne h1]
  exact Function.update_of_ne hq ..

theorem FreeList.appendFree (hs : d.Sound) (hf : d.FreeList fl) (h1 : d.page 1 = .first hd) :
    (d.appendFree hd).FreeList ((d.total + 1) :: fl) := by
  have hb := free_bounds hs hf
  have hpos := hs.pos
  have hsz := hs.size_eq
  obtain ⟨hd', h1', hc⟩ := hf
  rw [h1] at h1'
  cases h1'
  refine ⟨_, set_page_self, rfl, Nat.succ_ne_zero _, hd.freePageHead, ?_, ?_⟩
  · rw [FreeNext, Disk.appendFree, set_page_of_ne (by omega), ← hsz]
    exact Function.update_self ..
  · refine freeChain_frame hc ?_
    intro a ha
    obtain ⟨-, ha1, hle, -⟩ := hb a ha
    exact appendFree_page_of_ne ha1 (by omega)

theorem Good.appendFree (h : d.Good) (h1 : d.page 1 = .first hd) : (d.appendFree hd).Good := by
  obtain ⟨fl, hf⟩ := h.free
  have hpos := h.sound.pos
  have hsz := h.sound.size_eq
  refine ⟨⟨?_, ⟨_, set_page_self⟩, ?_⟩, ?_, _, hf.appendFree h.sound h1⟩
  · change d.size + 1 = d.total + 1
    omega
  · intro p hp
    change p ≤ d.total + 1
    by_cases hp1 : p = 1
    · omega
    by_cases hpn : p = d.size + 1
    · omega
    rw [appendFree_page_of_ne hp1 hpn] at hp
    exact (h.sound.bounded p hp).trans (Nat.le_succ _)
  · rw [appendFree_page_of_ne (by decide) (by omega), h.zero]

/-- The free list without its head. -/
theorem FreeList.pop (hs : d.Sound) (hf : d.FreeList fl) (h1 : d.page 1 = .first hd)
    (hp : d.page hd.freePageHead = .free q) (h0 : hd.freePageHead ≠ nullPage) :
    (d.set 1 (.first { hd with freePageHead := q })).FreeList fl.tail := by
  have hb := free_bounds hs hf
  obtain ⟨hd', h1', hc⟩ := hf
  rw [h1] at h1'
  cases h1'
  obtain ⟨q', rest, rfl, hq', hrest⟩ := hc.cons_of_ne h0
  rw [FreeNext, hp] at hq'
  cases hq'
  refine ⟨_, set_page_self, freeChain_frame hrest ?_⟩
  intro a ha
  exact set_page_of_ne (hb a (List.mem_cons_of_mem _ ha)).2.1

theorem Good.pop (h : d.Good) (h1 : d.page 1 = .first hd) (hp : d.page hd.freePageHead = .free q)
    (h0 : hd.freePageHead ≠ nullPage) : (d.set 1 (.first { hd with freePageHead := q })).Good := by
  obtain ⟨fl, hf⟩ := h.free
  exact ⟨h.sound.set_first, by rw [set_page_of_ne (by decide), h.zero], _,
    hf.pop h.sound h1 hp h0⟩

/-- The header's `next_oid` is nobody else's. -/
theorem Good.set_nextOid (h : d.Good) (h1 : d.page 1 = .first hd) (oid : DefaultPagerKey) :
    (d.set 1 (.first { hd with nextOid := oid })).Good := by
  obtain ⟨fl, hd', h1', hc⟩ := h.free
  rw [h1] at h1'
  cases h1'
  refine ⟨h.sound.set_first, by rw [set_page_of_ne (by decide), h.zero], fl, _, set_page_self, ?_⟩
  refine freeChain_frame hc ?_
  intro a ha
  refine set_page_of_ne ?_
  rintro rfl
  obtain ⟨-, l₂, -, -, -, q, hq, -⟩ := hc.of_mem ha
  rw [FreeNext, h1] at hq
  cases hq

/-- `d'` comes from `d` by work on the pages `ids` and on pages nobody owned. -/
structure Evolves (d d' : Disk) (ids : List Nat) : Prop where
  good : d'.Good
  total_le : d.total ≤ d'.total
  nextOid_eq : d'.nextOid = d.nextOid
  same : ∀ p, p ≠ 1 → p ∉ ids → (d.page p).InUse → d'.page p = d.page p

theorem Evolves.refl (h : d.Good) : d.Evolves d ids :=
  ⟨h, le_rfl, rfl, fun _ _ _ _ => rfl⟩

theorem Evolves.trans (hg : d.Good) (h : d.Evolves d' ids) (h' : d'.Evolves d'' ids')
    (hs : ∀ p ∈ ids', p ∈ ids ∨ d.total < p) : d.Evolves d'' ids := by
  refine ⟨h'.good, h.total_le.trans h'.total_le, h'.nextOid_eq.trans h.nextOid_eq, ?_⟩
  intro p h1 hp hu
  have hd := h.same p h1 hp hu
  have hp' : p ∉ ids' := by
    intro hm
    rcases hs p hm with hm | hm
    · exact hp hm
    · exact absurd (hg.le_total hu) (not_le.mpr hm)
  rw [h'.same p h1 hp' (by rw [hd]; exact hu), hd]

theorem Evolves.mono (h : d.Evolves d' ids) (hs : ∀ p ∈ ids, p ∈ ids') : d.Evolves d' ids' :=
  ⟨h.good, h.total_le, h.nextOid_eq, fun p h1 hp hu => h.same p h1 (fun hm => hp (hs p hm)) hu⟩

theorem Evolves.set (hg : d.Good) (hp : (d.page p).IsTree) (hm : p ∈ ids) :
    d.Evolves (d.set p l) ids := by
  refine ⟨hg.set hp, le_rfl, ?_, ?_⟩
  · rw [nextOid, nextOid, set_page_of_ne (Ne.symm (hg.ne_one hp))]
  · intro q _ hq _
    refine set_page_of_ne ?_
    rintro rfl
    exact hq hm

theorem Evolves.set_more (hg : d.Good) (h : d.Evolves d' ids) (hp : (d'.page p).IsTree)
    (hm : p ∈ ids) : d.Evolves (d'.set p l) ids :=
  h.trans hg (.set h.good hp hm) (fun _ hq => .inl hq)

theorem Evolves.create (hg : d.Good) (h1 : d.page 1 = .first hd) :
    d.Evolves (d.create l hd) ids := by
  refine ⟨hg.create h1, by simp, ?_, ?_⟩
  · simp [nextOid, h1]
  · intro q hq1 _ hu
    have := hg.le_total hu
    exact create_page_of_ne hq1 (by omega)

theorem Evolves.free (hg : d.Good) (h1 : d.page 1 = .first hd) (hp : (d.page p).IsTree)
    (hm : p ∈ ids) : d.Evolves (d.free p hd) ids := by
  refine ⟨hg.free' h1 hp, le_rfl, ?_, ?_⟩
  · have hp1 := hg.ne_one hp
    simp [nextOid, h1, Disk.free, set_page_of_ne (Ne.symm hp1)]
  · intro q hq1 hq _
    refine free_page_of_ne hq1 ?_
    rintro rfl
    exact hq hm

/-- The pages left on the free list were not taken. -/
theorem FreeList.of_chainWritten {chunks : List (List Byte)} {rp : Nat} (hs : d.Sound)
    (hf : d.FreeList fl) (hw : ChainWritten d d' chunks rp fl) :
    d'.FreeList (fl.drop chunks.length) := by
  have hb := free_bounds hs hf
  have hnd := free_nodup hf
  obtain ⟨hd, h1, hc⟩ := hf
  generalize hn : chunks.length = n at hw
  refine ⟨_, by rw [hw.header hd h1, hn], ?_⟩
  have hdrop : Chain d.FreeNext nullPage ((fl.drop n).headD nullPage) (fl.drop n) := hc.drop n
  refine freeChain_frame hdrop ?_
  intro a ha
  have ha' := List.mem_of_mem_drop ha
  obtain ⟨-, ha1, hle, -⟩ := hb a ha'
  refine hw.same a ha1 ?_
  intro hm
  rw [hn] at hm
  rcases List.mem_append.mp hm with hm | hm
  · exact (List.disjoint_take_drop hnd (le_refl n)) hm ha
  · rw [List.mem_range'_1] at hm
    omega

theorem Evolves.of_chainWritten {chunks : List (List Byte)} {rp : Nat} (hg : d.Good)
    (hf : d.FreeList fl) (hw : ChainWritten d d' chunks rp fl) : d.Evolves d' ids := by
  have hpos := hg.sound.pos
  obtain ⟨hd, h1, hc⟩ := hf
  have hf : d.FreeList fl := ⟨hd, h1, hc⟩
  have hb := free_bounds hg.sound hf
  have hsame : ∀ p, p ≠ 1 → (d.page p).InUse → d'.page p = d.page p :=
    fun p hp hu => hw.same p hp (notMem_takenPages hg.sound hf hu.1 hu.2)
  refine ⟨⟨hw.sound, ?_, _, hf.of_chainWritten hg.sound hw⟩, by rw [hw.total]; omega, ?_,
    fun p h1 _ hu => hsame p h1 hu⟩
  · rw [hw.same 0 (by decide), hg.zero]
    intro hm
    rcases mem_takenPages hm with hm | hm
    · exact (hb 0 hm).1 rfl
    · omega
  · simp only [nextOid, h1, hw.header hd h1]

end Disk

end Cpplite
