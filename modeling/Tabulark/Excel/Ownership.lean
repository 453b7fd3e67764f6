import Tabulark.Excel.AnyBytes
import Tabulark.Excel.RegistryExact

/-!
# Who owns what in the workbook runtime

Every source of the registry is the private source of one open worksheet of one
range source, and every worksheet of the registry is listed with both (`Owned`).
Opening and closing worksheets and workbooks keep this.
-/

namespace Tabulark.Excel.Wasm

open InsertionMap

/-! ## Private sources -/

/-- The private sources of the range sources. -/
def innersOf (m : InsertionMap ℕ RangeSource) : List ℕ :=
  m.entries.flatMap fun e => e.2.innerSources

variable {m : InsertionMap ℕ RangeSource} {key inner : ℕ} {source source' : RangeSource}

theorem mem_innersOf : inner ∈ innersOf m ↔ ∃ e ∈ m.entries, inner ∈ e.2.innerSources :=
  List.mem_flatMap

theorem innersOf_perm (h : (key, source) ∈ m.entries) :
    (innersOf m).Perm (source.innerSources ++ innersOf (m.delete key)) :=
  (perm_cons_delete h).flatMap_right _

theorem innersOf_set : (innersOf (m.set key source')).Perm
    (source'.innerSources ++ innersOf (m.delete key)) :=
  set_perm.flatMap_right _

theorem innersOf_set_of_eq (h : (key, source) ∈ m.entries)
    (hinners : source'.innerSources = source.innerSources) :
    (innersOf (m.set key source')).Perm (innersOf m) := by
  refine innersOf_set.trans ?_
  rw [hinners]
  exact (innersOf_perm h).symm

/-- A range source under a new key has the private sources it brings. -/
theorem innersOf_set_of_new (h : m.get? key = none) :
    innersOf (m.set key source) = innersOf m ++ source.innerSources := by
  rw [innersOf, set_of_get?_eq_none h, List.flatMap_append, List.flatMap_singleton]
  rfl

/-- A private source is of one range source only. -/
theorem eq_of_inner (h : (innersOf m).Nodup) {e e' : ℕ × RangeSource} (he : e ∈ m.entries)
    (he' : e' ∈ m.entries) (hinner : inner ∈ e.2.innerSources)
    (hinner' : inner ∈ e'.2.innerSources) : e = e' := by
  by_contra hne
  have hkey : e'.1 ≠ e.1 := fun hkey => hne (eq_of_key he' he hkey).symm
  have hnodup := (innersOf_perm (show (e.1, e.2) ∈ m.entries from he)).nodup_iff.1 h
  exact (List.nodup_append.1 hnodup).2.2 _ hinner _
    (mem_innersOf.2 ⟨e', mem_delete.2 ⟨he', hkey⟩, hinner'⟩) rfl

/-! ## The invariant -/

/-- The registry's sources are the private sources of the range sources, each of one; its
    worksheets are listed with their range source and their private source, each of one
    worksheet. -/
structure Owned (r : ExcelRuntime) (rangeSources : InsertionMap ℕ RangeSource)
    (tableSources : InsertionMap ℕ (ℕ × ℕ)) : Prop where
  sound : r.Sound
  inners : (innersOf rangeSources).Perm (r.sources.entries.map Prod.fst)
  listed : ∀ e ∈ r.tables.entries, ∃ owner, (e.1, owner, e.2.source) ∈ tableSources.entries
  opened : ∀ e ∈ tableSources.entries,
    (∃ table, (e.1, table) ∈ r.tables.entries ∧ table.source = e.2.2) ∧
      ∃ source, (e.2.1, source) ∈ rangeSources.entries ∧ e.2.2 ∈ source.innerSources
  single : (tableSources.entries.map fun e => e.2.2).Nodup

namespace Owned

variable {r : ExcelRuntime} {tableSources : InsertionMap ℕ (ℕ × ℕ)} {table : ℕ}

theorem nodup (h : Owned r m tableSources) : (innersOf m).Nodup :=
  h.inners.nodup_iff.2 r.sources.nodup

/-- A private source is open. -/
theorem mem_sources (h : Owned r m tableSources) {e : ℕ × RangeSource} (he : e ∈ m.entries)
    (hinner : inner ∈ e.2.innerSources) : ∃ value, (inner, value) ∈ r.sources.entries := by
  obtain ⟨⟨_, value⟩, hvalue, rfl⟩ := List.mem_map.1
    (h.inners.mem_iff.1 (mem_innersOf.2 ⟨e, he, hinner⟩))
  exact ⟨value, hvalue⟩

/-- Taking handles owns nothing. -/
theorem skip (h : Owned r m tableSources) (n : ℕ) : Owned (r.skip n) m tableSources :=
  ⟨h.sound.skip n, h.inners, h.listed, h.opened, h.single⟩

/-- A range source that keeps its private sources. -/
theorem set (h : Owned r m tableSources) (hget : (key, source) ∈ m.entries)
    (hinners : source'.innerSources = source.innerSources) :
    Owned r (m.set key source') tableSources := by
  refine ⟨h.sound, (innersOf_set_of_eq hget hinners).trans h.inners, h.listed, fun e he => ?_,
    h.single⟩
  obtain ⟨htable, owner, howner, hinner⟩ := h.opened e he
  refine ⟨htable, ?_⟩
  by_cases hkey : e.2.1 = key
  · have heq := eq_of_key howner hget hkey
    cases heq
    exact ⟨source', mem_set.2 (.inl rfl), hinners ▸ hinner⟩
  · exact ⟨owner, mem_set.2 (.inr ⟨howner, hkey⟩), hinner⟩

/-- A new range source without private sources. -/
theorem addSource (h : Owned r m tableSources) (hget : m.get? key = none)
    (hinners : source.innerSources = []) : Owned r (m.set key source) tableSources := by
  refine ⟨h.sound, ?_, h.listed, fun e he => ?_, h.single⟩
  · rw [innersOf_set_of_new hget, hinners, List.append_nil]
    exact h.inners
  · obtain ⟨htable, owner, howner, hinner⟩ := h.opened e he
    exact ⟨htable, owner, set_of_get?_eq_none hget ▸ List.mem_append_left _ howner, hinner⟩

/-- A worksheet that is opened through a new private source. -/
theorem addTable (h : Owned r m tableSources) (hget : (key, source) ∈ m.entries)
    {value : ExcelSource} {opened : OpenTable} (hsource : opened.source = r.nextHandle)
    (hinners : source'.innerSources = source.innerSources ++ [r.nextHandle])
    (hruntime : ((r.addSource value).addTable opened).Sound) :
    Owned ((r.addSource value).addTable opened) (m.set key source')
      (tableSources.set (r.nextHandle + 1) (key, r.nextHandle)) := by
  have hsources := @set_of_get?_eq_none _ _ _ _ _ value h.sound.get?_sources
  have htables : ((r.addSource value).addTable opened).tables.entries =
      r.tables.entries ++ [(r.nextHandle + 1, opened)] :=
    set_of_get?_eq_none (get?_eq_none.2 fun e he =>
      ((h.sound.tables_lt e he).trans (Nat.lt_succ_self _)).ne)
  have hlisted : ∀ e ∈ tableSources.entries, e.1 < r.nextHandle ∧ e.2.2 < r.nextHandle := by
    intro e he
    obtain ⟨⟨t, ht, hts⟩, _⟩ := h.opened e he
    obtain ⟨v, hv⟩ := h.sound.owned _ ht
    exact ⟨h.sound.tables_lt _ ht, hts ▸ h.sound.sources_lt _ hv⟩
  have hentries := @set_of_get?_eq_none _ _ _ tableSources (r.nextHandle + 1) (key, r.nextHandle)
    (get?_eq_none.2 fun e he => ((hlisted e he).1.trans (Nat.lt_succ_self _)).ne)
  refine ⟨hruntime, ?_, fun e he => ?_, fun e he => ?_, ?_⟩
  · have hkeys : ((r.addSource value).addTable opened).sources.entries.map Prod.fst =
        r.sources.entries.map Prod.fst ++ [r.nextHandle] := by
      rw [ExcelRuntime.addTable, ExcelRuntime.addSource]
      dsimp only
      rw [hsources, List.map_append]
      rfl
    -- The new private source goes behind those of its range source.
    rw [hkeys]
    refine innersOf_set.trans ?_
    rw [hinners, List.append_assoc]
    refine (List.perm_append_comm.append_left _).trans ?_
    rw [← List.append_assoc]
    exact ((innersOf_perm hget).symm.trans h.inners).append_right _
  · rw [htables, List.mem_append, List.mem_singleton] at he
    rw [hentries]
    rcases he with he | rfl
    · obtain ⟨owner, howner⟩ := h.listed e he
      exact ⟨owner, List.mem_append_left _ howner⟩
    · exact ⟨key, List.mem_append_right _ (by rw [hsource]; exact List.mem_singleton.2 rfl)⟩
  · rw [hentries, List.mem_append, List.mem_singleton] at he
    rw [htables]
    rcases he with he | rfl
    · obtain ⟨⟨t, ht, hts⟩, owner, howner, hinner⟩ := h.opened e he
      refine ⟨⟨t, List.mem_append_left _ ht, hts⟩, ?_⟩
      by_cases hkey : e.2.1 = key
      · have heq := eq_of_key howner hget hkey
        cases heq
        exact ⟨source', mem_set.2 (.inl rfl), hinners ▸ List.mem_append_left _ hinner⟩
      · exact ⟨owner, mem_set.2 (.inr ⟨howner, hkey⟩), hinner⟩
    · refine ⟨⟨opened, List.mem_append_right _ (List.mem_singleton.2 rfl), hsource⟩, source',
        mem_set.2 (.inl rfl), ?_⟩
      rw [hinners]
      exact List.mem_append_right _ (List.mem_singleton.2 rfl)
  · rw [hentries, List.map_append, List.map_singleton]
    refine List.nodup_append.2 ⟨h.single, List.nodup_singleton _, fun a ha b hb => ?_⟩
    obtain ⟨e, he, rfl⟩ := List.mem_map.1 ha
    rw [List.mem_singleton.1 hb]
    exact (hlisted e he).2.ne

/-- A worksheet that is closed with its private source. -/
theorem closeTable (h : Owned r m tableSources)
    (hlisted : (table, key, inner) ∈ tableSources.entries) (hget : (key, source) ∈ m.entries)
    (hinners : source'.innerSources = source.innerSources.filter (· ≠ inner)) :
    Owned ((r.closeTable table).1.closeSource inner).1 (m.set key source')
      (tableSources.delete table) := by
  obtain ⟨hsources, htables⟩ := ExcelRuntime.entries_closeTable r table
  obtain ⟨hsources', htables'⟩ :=
    ExcelRuntime.entries_closeSource (h.sound.closeTable table) inner
  obtain ⟨_, owner, howner, hinner⟩ := h.opened _ hlisted
  cases eq_of_key howner hget rfl
  -- Another worksheet has another private source.
  have hother : ∀ e ∈ tableSources.entries, e.1 ≠ table → e.2.2 ≠ inner := by
    intro e he hne heq
    exact hne (congrArg Prod.fst (List.inj_on_of_nodup_map h.single he hlisted heq))
  refine ⟨(h.sound.closeTable table).closeSource inner, ?_, fun e he => ?_, fun e he => ?_,
    h.single.sublist (List.filter_sublist.map _)⟩
  · obtain ⟨value, hvalue⟩ := h.mem_sources howner hinner
    have hnodup : source.innerSources.Nodup :=
      (List.nodup_append.1 ((innersOf_perm howner).nodup_iff.1 h.nodup)).1
    have hfilter : source.innerSources.Perm (inner :: source.innerSources.filter (· ≠ inner)) := by
      refine (List.perm_ext_iff_of_nodup hnodup (List.nodup_cons.2 ⟨?_, hnodup.filter _⟩)).2 ?_
      · rw [List.mem_filter, decide_eq_true_eq]
        exact fun hmem => hmem.2 rfl
      · intro a
        rw [List.mem_cons, List.mem_filter, decide_eq_true_eq]
        constructor
        · exact fun ha => or_iff_not_imp_left.2 fun hne => ⟨ha, hne⟩
        · rintro (rfl | ha)
          · exact hinner
          · exact ha.1
    have hset : (innersOf m).Perm (inner :: innersOf (m.set key source')) := by
      refine (innersOf_perm howner).trans ((hfilter.append_right _).trans ?_)
      rw [List.cons_append, ← hinners]
      exact innersOf_set.symm.cons _
    have hkeys := (perm_cons_delete hvalue).map Prod.fst
    rw [List.map_cons] at hkeys
    rw [hsources', hsources]
    exact (hset.symm.trans (h.inners.trans hkeys)).cons_inv
  · rw [htables', List.mem_filter, htables, List.mem_filter, decide_eq_true_eq,
      decide_eq_true_eq] at he
    obtain ⟨owner, howner⟩ := h.listed e he.1.1
    exact ⟨owner, mem_delete.2 ⟨howner, he.1.2⟩⟩
  · obtain ⟨he, hne⟩ := mem_delete.1 he
    obtain ⟨⟨t, ht, hts⟩, owner, howner', hinner'⟩ := h.opened e he
    refine ⟨⟨t, ?_, hts⟩, ?_⟩
    · rw [htables', List.mem_filter, htables, List.mem_filter, decide_eq_true_eq,
        decide_eq_true_eq]
      exact ⟨⟨ht, hne⟩, hts ▸ hother e he hne⟩
    · by_cases hkey : e.2.1 = key
      · cases eq_of_key howner' howner hkey
        refine ⟨source', mem_set.2 (.inl (Prod.ext hkey rfl)), ?_⟩
        rw [hinners, List.mem_filter, decide_eq_true_eq]
        exact ⟨hinner', hother e he hne⟩
      · exact ⟨owner, mem_set.2 (.inr ⟨howner', hkey⟩), hinner'⟩

/-- A range source that is closed with its worksheets and their private sources. -/
theorem closeSource (h : Owned r m tableSources) (hget : (key, source) ∈ m.entries)
    {r' : ExcelRuntime} {tableSources' : InsertionMap ℕ (ℕ × ℕ)} (hsound : r'.Sound)
    (hsources : r'.sources.entries =
      r.sources.entries.filter fun e => e.1 ∉ source.innerSources)
    (htables : ∀ e, e ∈ r'.tables.entries ↔ e ∈ r.tables.entries ∧
      (∀ inner, (e.1, key, inner) ∉ tableSources.entries) ∧ e.2.source ∉ source.innerSources)
    (hlisted : tableSources'.entries = tableSources.entries.filter fun e => e.2.1 ≠ key) :
    Owned r' (m.delete key) tableSources' := by
  have hperm := innersOf_perm hget
  have hdisjoint := (List.nodup_append.1 (hperm.nodup_iff.1 h.nodup)).2.2
  refine ⟨hsound, ?_, fun e he => ?_, fun e he => ?_, ?_⟩
  · -- What is left of the private sources are those of the other range sources.
    have hrest : (innersOf m).filter (fun inner => decide (inner ∉ source.innerSources)) |>.Perm
        (innersOf (m.delete key)) := by
      refine (hperm.filter _).trans (.of_eq ?_)
      rw [List.filter_append, List.filter_eq_nil_iff.2 fun a ha => by
          rw [decide_eq_true_eq]
          exact not_not.2 ha, List.nil_append]
      exact List.filter_eq_self.2 fun a ha => decide_eq_true fun hmem => hdisjoint a hmem a ha rfl
    rw [hsources]
    refine hrest.symm.trans ((h.inners.filter _).trans (.of_eq ?_))
    rw [List.filter_map]
    rfl
  · obtain ⟨he, hnot, _⟩ := (htables e).1 he
    obtain ⟨owner, howner⟩ := h.listed e he
    refine ⟨owner, ?_⟩
    rw [hlisted, List.mem_filter, decide_eq_true_eq]
    exact ⟨howner, fun heq => hnot _ (by rw [← heq]; exact howner)⟩
  · rw [hlisted, List.mem_filter, decide_eq_true_eq] at he
    obtain ⟨⟨t, ht, hts⟩, owner, howner, hinner⟩ := h.opened e he.1
    have hmem : (e.2.1, owner) ∈ (m.delete key).entries := mem_delete.2 ⟨howner, he.2⟩
    refine ⟨⟨t, (htables _).2 ⟨ht, fun inner hinner => he.2 ?_, ?_⟩, hts⟩, owner, hmem, hinner⟩
    · exact congrArg (fun e => e.2.1) (eq_of_key he.1 hinner rfl)
    · rw [hts]
      exact fun hmem' => hdisjoint _ hmem' _ (mem_innersOf.2 ⟨_, hmem, hinner⟩) rfl
  · rw [hlisted]
    exact h.single.sublist (List.filter_sublist.map _)

end Owned

end Tabulark.Excel.Wasm
