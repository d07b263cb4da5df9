import Cpplite.BTree.Reopen
import Cpplite.Catalog.Reopen

/-!
A catalog over a file that is opened again. The new `Pager` says that the file has one page, so
the constructor appends another leaf and then reads page 2, where the tables are: they all
come back. What does not come back is `next_oid`. It starts at 1 again, and while the first
table that was created is there no other can be created.
-/
namespace Cpplite

open Exec Encoding Schema HeightTree

namespace CatalogManager

/-- The same maps and cursor over a file that still has its pages. -/
structure Lasts (s s' : CatalogState) : Prop where
  pager : s.pager.Lasts s'.pager
  self : s'.self = { s.self with nextOid := s'.self.nextOid, fpm := s'.self.fpm }

section Reads

variable [Build] {α : Type} {R : α → α → Prop}

end Reads

/-! ### The second process -/

section Restart

variable [Build] {s : CatalogState} {pager : Pager} {m : Contents} {l : BTreeLeaf}

/-- A catalog of the second process, after calls that have not got far. -/
structure Stuck (pager : Pager) (s : CatalogState) : Prop where
  lasts : pager.Lasts s.pager
  root : s.self.schemaCursor.rootPgno = schemaPgno
  config : s.self.schemaCursor.config = {}
  oid : s.self.nextOid = 1

/-- The search for a row of the old tree finds it. -/
theorem Stuck.moveToKey {k : DefaultPagerKey} (h : Stuck pager s)
    (hh : Holds (n := 0) pager.disk ⟨[], schemaPgno, {}⟩ l m) (hk : (m k).isSome) :
    Returns (moveToKey k) ⟨s.pager, s.self.schemaCursor⟩ (fun found t => found = true ∧
      t.pager = s.pager ∧ t.self.rootPgno = schemaPgno ∧ t.self.config = {}) := by
  have hcur : s.self.schemaCursor = ⟨s.self.schemaCursor.cursor, schemaPgno, {}⟩ := by
    rw [← h.root, ← h.config]
  have hT : Planted (n := 0) pager.disk s.self.schemaCursor l := hcur ▸ hh.planted.setCursor _
  have hlive : Returns (Cpplite.moveToKey k) ⟨pager, s.self.schemaCursor⟩
      (fun found _ => found = true) := by
    refine (moveToKey_runs (k := k) hh.good hT _ rfl rfl).mono ?_
    rintro found u ⟨-, c, l', i, harr⟩
    exact (harr.found_iff hT).mpr (hh.spells.isSome_iff.mp hk)
  have hboth : BTreeState.Lasts ⟨pager, s.self.schemaCursor⟩ ⟨s.pager, s.self.schemaCursor⟩ :=
    ⟨h.lasts, rfl⟩
  obtain ⟨found, t, hrun, _, u, rfl, -, rfl⟩ := moveToKey_lasts.returns hboth hlive
  have hleft := moveToKey_leaves.of_ok hrun
  simp only [BTreeState.unmoved, Prod.mk.injEq] at hleft
  exact ⟨_, t, hrun, rfl, hleft.1, hleft.2.1.trans h.root, hleft.2.2.trans h.config⟩

/-- `create_table` makes a page and then finds its oid taken. -/
theorem Stuck.createTable (h : Stuck pager s)
    (hh : Holds (n := 0) pager.disk ⟨[], schemaPgno, {}⟩ l m) (hone : (m 1).isSome) (table : Table) :
    ∃ s', CatalogManager.createTable table s =
        .error (.runtimeError "[btree:insert]: Duplicate key") s' ∧
      Stuck pager s' ∧ s'.self.tables = s.self.tables := by
  obtain ⟨hd, h1⟩ := hh.good.sound.first
  obtain ⟨hd', hfirst⟩ := h.lasts.first (page_first h1).1
  obtain ⟨page, pager₁, hpage, -, hlasts, -⟩ := Pager.createLeafPage_lasts hfirst
  have h₁ : Stuck pager ⟨pager₁, s.self⟩ := ⟨h.lasts.trans hlasts, h.root, h.config, h.oid⟩
  obtain ⟨found, t, hmove, rfl, hpager, hroot, hconfig⟩ := h₁.moveToKey hh hone
  have hinsert : insert s.self.nextOid (serializeTable table (page % 2 ^ 64))
      ⟨pager₁, s.self.schemaCursor⟩ = .error (.runtimeError "[btree:insert]: Duplicate key") t := by
    rw [h.oid, insert, bind_ok hmove]
    rfl
  refine ⟨⟨t.pager, { s.self with schemaCursor := t.self }⟩, ?_,
    ⟨by rw [hpager]; exact h₁.lasts, hroot, hconfig, h.oid⟩, rfl⟩
  have hpage' : onPager (createPage .leafPage) s = .ok page ⟨pager₁, s.self⟩ := zoom_ok hpage
  have hself : getManager ⟨pager₁, s.self⟩ = .ok s.self ⟨pager₁, s.self⟩ := rfl
  rw [CatalogManager.createTable, bind_ok hpage', bind_ok hself]
  exact bind_error (zoom_error hinsert)

end Restart

end CatalogManager

end Cpplite
