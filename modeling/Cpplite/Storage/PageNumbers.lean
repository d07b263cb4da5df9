import Cpplite.Storage.Engine

/-!
The page numbers a storage engine knows of, whatever its files hold.
-/
namespace Cpplite

open Exec

namespace StorageEngine

/-- No table is forgotten, and none loses a page. -/
def Grows (s u : StorageEngine) : Prop := ∀ t metadata, s.tableMetadata.lookup t = some metadata →
  ∃ metadata', u.tableMetadata.lookup t = some metadata' ∧ metadata.lastPgno ≤ metadata'.lastPgno

/-- The page is one of its table. -/
def Knows (s : StorageEngine) (pgkey : PageKey) : Prop :=
  ∃ metadata, s.tableMetadata.lookup pgkey.1 = some metadata ∧ pgkey.2 ≤ metadata.lastPgno

section Numbers

variable {s u w : StorageEngine} {t : Nat} {pgkey : PageKey}

theorem Grows.refl : Grows s s := fun _ metadata h => ⟨metadata, h, le_rfl⟩

theorem Grows.trans (h : Grows s u) (h' : Grows u w) : Grows s w := by
  intro t metadata hs
  obtain ⟨metadata', hu, hle⟩ := h t metadata hs
  obtain ⟨metadata'', hw, hle'⟩ := h' t metadata' hu
  exact ⟨metadata'', hw, hle.trans hle'⟩

theorem Grows.of_eq (h : u.tableMetadata = s.tableMetadata) : Grows s u := by
  rw [Grows, h]
  exact Grows.refl

theorem Knows.grows (h : Knows s pgkey) (hg : Grows s u) : Knows u pgkey := by
  obtain ⟨metadata, hm, hle⟩ := h
  obtain ⟨metadata', hm', hle'⟩ := hg _ _ hm
  exact ⟨metadata', hm', hle.trans hle'⟩

theorem leaves_onVfs {α : Type} (x : LocalFSM α) : Leaves (·.tableMetadata) (onVfs x) :=
  leaves_zoom fun _ _ => rfl

theorem leaves_onFilecache {α : Type} (x : FileCacheM LocalFile α) :
    Leaves (·.tableMetadata) (onFilecache x) :=
  leaves_zoom fun _ _ => rfl

theorem leaves_deref (file : Option LocalFile) : Leaves (·.tableMetadata) (deref file) := by
  cases file with
  | some file => exact leaves_pure
  | none => exact leaves_throw

theorem leaves_decode {α : Type} (x : ReadM α) : Leaves (·.tableMetadata) (decode x) := by
  unfold decode
  cases x 0 with
  | ok a offset => exact leaves_pure
  | error e offset => exact leaves_throw

variable [Build]

theorem leaves_openSegment (tblId segId : Nat) :
    Leaves (·.tableMetadata) (openSegment tblId segId) := by
  refine (leaves_onFilecache _).bind fun cached => .ite (leaves_onFilecache _) ?_
  exact (leaves_onVfs _).bind fun file =>
    (leaves_onFilecache _).bind fun _ => leaves_onFilecache _

theorem leaves_getSegment (tblId pgno : Nat) : Leaves (·.tableMetadata) (getSegment tblId pgno) := by
  refine leaves_get.bind fun s => leaves_assert.bind fun _ => (leaves_openSegment _ _).bind fun seg => ?_
  cases seg with
  | some seg => exact leaves_pure
  | none => exact leaves_throw

/-- The last page number of a table is known from then on. -/
theorem getLatestPage_numbers {n : Nat} (h : getLatestPage t s = .ok n u) :
    ∃ metadata, u.tableMetadata.lookup t = some metadata ∧ metadata.lastPgno = n ∧
      ∀ x m, s.tableMetadata.lookup x = some m → u.tableMetadata.lookup x = some m := by
  rw [getLatestPage, bind_ok get_ok] at h
  cases hm : s.tableMetadata.lookup t with
  | some metadata =>
    simp only [hm] at h
    cases h
    exact ⟨metadata, hm, rfl, fun _ _ hx => hx⟩
  | none =>
    simp only [hm] at h
    obtain ⟨file, s₁, h1, h⟩ := bind_eq_ok h
    obtain ⟨_, s₂, h2, h⟩ := bind_eq_ok h
    obtain ⟨seg, s₃, h3, h⟩ := bind_eq_ok h
    obtain ⟨buffer, s₄, h4, h⟩ := bind_eq_ok h
    obtain ⟨⟨metadata, offset⟩, s₅, h5, h⟩ := bind_eq_ok h
    obtain ⟨_, s₆, h6, h⟩ := bind_eq_ok h
    have hsame : s₆.tableMetadata = s.tableMetadata := by
      have e1 := (leaves_openSegment _ _).of_ok h1
      have e2 := (leaves_assert (g := StorageEngine.tableMetadata)).of_ok h2
      have e3 := (leaves_deref _).of_ok h3
      have e4 := (leaves_onVfs _).of_ok h4
      have e5 := (leaves_decode _).of_ok h5
      have e6 := (leaves_assert (g := StorageEngine.tableMetadata)).of_ok h6
      exact e6.trans (e5.trans (e4.trans (e3.trans (e2.trans e1))))
    cases h
    refine ⟨metadata, by simp, rfl, fun x m hx => ?_⟩
    have hne : x ≠ t := by
      rintro rfl
      rw [hm] at hx
      cases hx
    simp [hne, hsame, hx]

theorem getLatestPage_grows {n : Nat} (h : getLatestPage t s = .ok n u) : Grows s u := by
  obtain ⟨-, -, -, hsame⟩ := getLatestPage_numbers h
  exact fun x m hx => ⟨m, hsame x m hx, le_rfl⟩

/-- A page that was read is known. -/
theorem readPage_numbers {buffer content : List Byte} (h : readPage pgkey buffer s = .ok content u) :
    Knows u pgkey ∧ Grows s u := by
  obtain ⟨n, s₁, h1, h⟩ := bind_eq_ok h
  obtain ⟨metadata, hm, rfl, -⟩ := getLatestPage_numbers h1
  by_cases hpast : pgkey.2 > metadata.lastPgno
  · rw [if_pos hpast] at h
    cases h
  · rw [if_neg hpast] at h
    have hrest : Leaves (·.tableMetadata) (do
        let seg ← getSegment pgkey.1 pgkey.2
        let s ← get
        onVfs (seg.read buffer s.config.pageSize
          (pgnoToFileOffset pgkey.2 s.config.segmentSize s.config.pageSize)) : StorageM (List Byte)) :=
      (leaves_getSegment _ _).bind fun _ => leaves_get.bind fun _ => leaves_onVfs _
    have hsame := hrest.of_ok h
    exact ⟨⟨metadata, by rw [hsame, hm], by omega⟩, (getLatestPage_grows h1).trans (.of_eq hsame)⟩

theorem writePage_grows {buffer content : List Byte} (h : writePage pgkey buffer s = .ok content u) :
    Grows s u := by
  obtain ⟨n, s₁, h1, h⟩ := bind_eq_ok h
  by_cases hpast : pgkey.2 > n
  · rw [if_pos hpast] at h
    cases h
  · rw [if_neg hpast] at h
    have hrest : Leaves (·.tableMetadata) (do
        let seg ← getSegment pgkey.1 pgkey.2
        let s ← get
        onVfs (seg.write (some buffer) s.config.pageSize
          (pgnoToFileOffset pgkey.2 s.config.segmentSize s.config.pageSize))
        return ByteFile.padTo buffer s.config.pageSize : StorageM (List Byte)) :=
      (leaves_getSegment _ _).bind fun _ => leaves_get.bind fun _ =>
        (leaves_onVfs _).bind fun _ => leaves_pure
    exact (getLatestPage_grows h1).trans (.of_eq (hrest.of_ok h))

/-- The table's next page number is one of 64 bits. -/
def HasRoom (s : StorageEngine) (t : Nat) : Prop :=
  ∀ metadata, s.tableMetadata.lookup t = some metadata → metadata.lastPgno + 1 < 2 ^ 64

/-- A new page is one that was not known. -/
theorem allocatePage_numbers (h : allocatePage t s = .ok pgkey u) (hroom : HasRoom s t) :
    ¬ Knows s pgkey ∧ Grows s u := by
  obtain ⟨s₀, s₁, h0, h⟩ := bind_eq_ok h
  cases h0
  obtain ⟨_, s₁, h1, h⟩ := bind_eq_ok h
  have e1 := (leaves_assert (g := StorageEngine.tableMetadata)).of_ok h1
  obtain ⟨n, s₂, h2, h⟩ := bind_eq_ok h
  obtain ⟨metadata, hm, rfl, hsame⟩ := getLatestPage_numbers h2
  obtain ⟨s₃, _, h3, h⟩ := bind_eq_ok h
  cases h3
  obtain ⟨seg, s₄, h4, h⟩ := bind_eq_ok h
  have e4 := (leaves_openSegment _ _).of_ok h4
  obtain ⟨seg', s₅, h5, h⟩ := bind_eq_ok h
  have e5 := (leaves_deref _).of_ok h5
  obtain ⟨_, s₆, h6, h⟩ := bind_eq_ok h
  have e6 := (leaves_onVfs _).of_ok h6
  obtain ⟨s₇, _, h7, h⟩ := bind_eq_ok h
  cases h7
  obtain ⟨_, s₈, h8, h⟩ := bind_eq_ok h
  cases h8
  obtain ⟨_, s₉, h9, h⟩ := bind_eq_ok h
  have e9 := (leaves_assert (g := StorageEngine.tableMetadata)).of_ok h9
  cases h
  have hbefore : s₆.tableMetadata = s₂.tableMetadata := e6.trans (e5.trans e4)
  have hkeep : ∀ x m, s.tableMetadata.lookup x = some m → s₆.tableMetadata.lookup x = some m := by
    intro x m hx
    rw [hbefore]
    exact hsame x m (by rw [show s₁.tableMetadata = s.tableMetadata from e1, hx])
  have hold : ∀ m, s.tableMetadata.lookup t = some m → m = metadata ∧
      (metadata.lastPgno + 1) % 2 ^ 64 = m.lastPgno + 1 := by
    intro m hx
    have hx' := hkeep t m hx
    rw [hbefore, hm, Option.some_inj] at hx'
    subst hx'
    exact ⟨rfl, Nat.mod_eq_of_lt (hroom _ hx)⟩
  constructor
  · rintro ⟨m, hx, hle⟩
    obtain ⟨-, heq⟩ := hold m hx
    rw [heq] at hle
    omega
  · refine Grows.trans ?_ (.of_eq e9)
    intro x m hx
    by_cases hxt : x = t
    · subst hxt
      obtain ⟨rfl, heq⟩ := hold m hx
      refine ⟨_, AList.lookup_insert _, ?_⟩
      rw [hkeep x m hx, Option.getD_some]
      simp only [TableMetadata.next, heq]
      omega
    · exact ⟨m, by rw [AList.lookup_insert_ne hxt]; exact hkeep x m hx, le_rfl⟩

end Numbers

end StorageEngine

end Cpplite
