import ChimeraMQ.Warm.LSMReopen

/-!
# The tables of a tree

As long as the keys are offsets, every table holds the largest offset of its
range.  Every table has a file of its own.
-/

namespace ChimeraMQ
namespace Warm

open Foundation

def Anchored (d : Disk) (sst : SSTable) : Prop :=
  getFrom d (be 8 sst.maxOffset) sst ≠ none

def HoldsOffset (mt : MemTable) : Prop :=
  exists key, key.length = 8 ∧ mt.get key ≠ none

theorem trackOffset_snd (range : Nat × Nat) (e : MemTableEntry) :
    (trackOffset false range e).2 = range.2 ∨
      e.key.length = 8 ∧ ofBe e.key = (trackOffset false range e).2 := by
  unfold trackOffset
  by_cases he : e.key.length = 8
  · rw [if_pos he]
    simp only [Bool.false_or, decide_eq_true_eq]
    split
    · exact Or.inr ⟨he, rfl⟩
    · exact Or.inl rfl
  · rw [if_neg he]
    exact Or.inl rfl

theorem foldl_trackOffset_snd (entries : List MemTableEntry)
    (range : Nat × Nat) :
    (entries.foldl (trackOffset false) range).2 = range.2 ∨
      exists x, x ∈ entries ∧ x.key.length = 8 ∧
        ofBe x.key = (entries.foldl (trackOffset false) range).2 := by
  induction entries generalizing range with
  | nil => exact Or.inl rfl
  | cons e entries ih =>
  rw [List.foldl_cons]
  rcases ih (trackOffset false range e) with hsame | ⟨x, hx, hkey⟩
  · rcases trackOffset_snd range e with hfirst | ⟨hlen, hoff⟩
    · exact Or.inl (hsame.trans hfirst)
    · refine Or.inr ⟨e, List.mem_cons_self .., hlen, ?_⟩
      rw [hsame]
      exact hoff
  · exact Or.inr ⟨x, List.mem_cons_of_mem e hx, hkey⟩

theorem exists_offsetRange_snd {entries : List MemTableEntry}
    {e : MemTableEntry} (he : e ∈ entries) (hlen : e.key.length = 8) :
    exists x, x ∈ entries ∧ x.key.length = 8 ∧
      ofBe x.key = (offsetRange entries).2 := by
  have hle := (inRange_offsetRange he hlen).right
  cases entries with
  | nil => cases he
  | cons first rest =>
  rcases foldl_trackOffset_snd rest (trackOffset true (0, 0) first) with
    hsame | ⟨x, hx, hkey⟩
  · by_cases hfirst : first.key.length = 8
    · refine ⟨first, List.mem_cons_self .., hfirst, ?_⟩
      rw [offsetRange, hsame, trackOffset, if_pos hfirst]
      rfl
    have hzero : (offsetRange (first :: rest)).2 = 0 := by
      rw [offsetRange, hsame, trackOffset, if_neg hfirst]
    refine ⟨e, he, hlen, ?_⟩
    omega
  · exact ⟨x, List.mem_cons_of_mem first hx, hkey⟩

variable {d : Disk} {sst : SSTable}

theorem Holds.anchored {sizing : BloomSizing} {entries : List MemTableEntry}
    (h : Holds d sizing sst entries) {e : MemTableEntry} (he : e ∈ entries)
    (hlen : e.key.length = 8) :
    Anchored d sst := by
  rcases exists_offsetRange_snd he hlen with ⟨x, hx, hxlen, hxoff⟩
  have hmax : sst.maxOffset = (offsetRange entries).2 := by
    rw [h.table]
    cases entries with
    | nil => cases he
    | cons first rest => rfl
  have hbytes : be 8 sst.maxOffset = x.key := by
    rw [hmax, ← hxoff, ← hxlen]
    exact be_ofBe x.key
  unfold Anchored
  rw [h.getFrom, hbytes, lookup, ne_eq, Option.map_eq_none_iff,
    List.find?_eq_none]
  intro hnone
  exact hnone x hx (by simp)

theorem Readable.anchored {sizing : BloomSizing} (h : Readable d sizing sst)
    {key : Bytes} (hlen : key.length = 8) (hget : getFrom d key sst ≠ none) :
    Anchored d sst := by
  rcases h with ⟨entries, hholds, _⟩
  rw [hholds.getFrom] at hget
  rcases Option.ne_none_iff_exists'.mp hget with ⟨r, hr⟩
  rcases mem_of_lookup hr with ⟨e, he, hkey⟩
  rw [← hkey] at hlen
  exact hholds.anchored he hlen

theorem Anchored.extends {d' : Disk} {sizing : BloomSizing} (h : Anchored d sst)
    (hread : Readable d sizing sst) (hext : d.Extends d') :
    Anchored d' sst := by
  unfold Anchored
  rw [hread.getFrom_extends hext]
  exact h

theorem Anchored.minOffset_le (h : Anchored d sst)
    (hmax : sst.maxOffset < 2 ^ 64) : sst.minOffset ≤ sst.maxOffset := by
  have hoff : ofBe (be 8 sst.maxOffset) = sst.maxOffset := ofBe_be_of_lt hmax
  unfold Anchored getFrom at h
  by_cases hrange : sst.keyRangeMayContain (be 8 sst.maxOffset) = true
  · unfold SSTable.keyRangeMayContain at hrange
    simp only [length_be, ne_eq, not_true_eq_false, if_false, hoff,
      decide_eq_true_eq] at hrange
    exact hrange.left
  · rw [if_neg hrange] at h
    exact absurd rfl h

namespace LSMTree

def pending (lsm : LSMTree) : List SSTable :=
  match lsm.flush with
  | .written sst => [sst]
  | _ => []

/--
Memtables that are to be flushed hold offsets, tables are anchored, and no two
of them have the same file.
-/
structure Tidy (lsm : LSMTree) : Prop where
  sound : lsm.Sound
  immutables : forall mt, mt ∈ lsm.immutables -> HoldsOffset mt
  taken : forall mt, lsm.flush = .taken mt -> HoldsOffset mt
  anchored : forall sst, sst ∈ lsm.levels.flatten ++ lsm.pending ->
    Anchored lsm.dir.disk sst
  files : ((lsm.levels.flatten ++ lsm.pending).map SSTable.file).Nodup

variable {lsm lsm' : LSMTree}

theorem Sound.readable (h : lsm.Sound)
    (hsst : sst ∈ lsm.levels.flatten ++ lsm.pending) :
    Readable lsm.dir.disk lsm.config.sizing sst := by
  rcases List.mem_append.mp hsst with hlevels | hpending
  · rcases List.mem_flatten.mp hlevels with ⟨level, hlevel, hmem⟩
    exact h.levels level hlevel sst hmem
  unfold pending at hpending
  have hflush := h.flush
  cases hphase : lsm.flush with
  | idle =>
    rw [hphase] at hpending
    cases hpending
  | taken mt =>
    rw [hphase] at hpending
    cases hpending
  | written t =>
  rw [hphase] at hpending hflush
  rw [List.mem_singleton.mp hpending]
  exact hflush

theorem Sound.file_lt (h : lsm.Sound)
    (hsst : sst ∈ lsm.levels.flatten ++ lsm.pending) :
    sst.file < lsm.dir.disk.files.length := by
  rcases h.readable hsst with ⟨entries, hholds, _⟩
  exact hholds.file_lt

theorem Tidy.same (h : lsm.Tidy) (hsound : lsm'.Sound)
    (hdir : lsm'.dir = lsm.dir) (hlevels : lsm'.levels = lsm.levels)
    (hpending : lsm'.pending = lsm.pending)
    (himmutables : forall mt, mt ∈ lsm'.immutables -> HoldsOffset mt)
    (htaken : forall mt, lsm'.flush = .taken mt -> HoldsOffset mt) :
    lsm'.Tidy where
  sound := hsound
  immutables := himmutables
  taken := htaken
  anchored := by
    rw [hdir, hlevels, hpending]
    exact h.anchored
  files := by
    rw [hlevels, hpending]
    exact h.files

variable {now : Nat}

theorem Tidy.put (h : lsm.Tidy) (hopen : lsm.closed = false) {key value : Bytes}
    (hlen : key.length = 8) (hstep : lsm.put key value now = some lsm') :
    lsm'.Tidy := by
  have hsound := (h.sound.put hopen hstep).sound
  rcases put_cases hstep with ⟨_, hdir, hlevels, hflush⟩
  refine h.same hsound hdir hlevels (by unfold pending; rw [hflush]) ?_ ?_
  · intro mt hmt
    unfold LSMTree.put at hstep
    rw [hopen] at hstep
    simp only [Bool.false_eq_true, if_false] at hstep
    cases hput : lsm.memtable.put key value now with
    | none =>
      rw [hput] at hstep
      cases hstep
    | some mt' =>
    rw [hput] at hstep
    simp only at hstep
    split at hstep
    · cases hstep
      rcases List.mem_append.mp hmt with hold | hnew
      · exact h.immutables mt hold
      rw [List.mem_singleton.mp hnew]
      refine ⟨key, hlen, ?_⟩
      rw [MemTable.get_put h.sound.memtable.ordered hput, if_pos rfl]
      exact Option.some_ne_none _
    · cases hstep
      exact h.immutables mt hmt
  · intro mt hmt
    rw [hflush] at hmt
    exact h.taken mt hmt

theorem Tidy.delete (h : lsm.Tidy) (hopen : lsm.closed = false) {key : Bytes}
    (hstep : lsm.delete key now = some lsm') :
    lsm'.Tidy := by
  have hsound := (h.sound.delete hopen hstep).sound
  rcases delete_cases hstep with ⟨_, hdir, hlevels, hflush⟩
  refine h.same hsound hdir hlevels (by unfold pending; rw [hflush]) ?_ ?_
  · unfold LSMTree.delete at hstep
    rw [hopen] at hstep
    simp only [Bool.false_eq_true, if_false] at hstep
    rcases Option.map_eq_some_iff.mp hstep with ⟨mt, _, hlsm⟩
    cases hlsm
    exact h.immutables
  · intro mt hmt
    rw [hflush] at hmt
    exact h.taken mt hmt

theorem Tidy.takeImmutable (h : lsm.Tidy)
    (hstep : lsm.takeImmutable = some lsm') : lsm'.Tidy := by
  have hsound := (h.sound.takeImmutable hstep).sound
  rcases takeImmutable_cases hstep with ⟨_, hdir, hlevels, hflush⟩
  unfold LSMTree.takeImmutable at hstep
  split at hstep
  · cases hstep
  split at hstep
  · rename_i hphase himm
    cases hstep
    exact h.same hsound hdir hlevels rfl h.immutables h.taken
  · rename_i mt rest hphase himm
    split at hstep
    · cases hstep
      exact h.same hsound hdir hlevels rfl h.immutables h.taken
    cases hstep
    refine h.same hsound hdir hlevels (by simp [pending, hphase]) ?_ ?_
    · intro x hx
      apply h.immutables
      rw [himm]
      exact List.mem_cons_of_mem mt hx
    intro x hx
    cases hx
    rcases h.immutables mt (by rw [himm]; exact List.mem_cons_self ..)
      with ⟨key, hlen, hget⟩
    exact ⟨key, hlen, hget⟩
  · cases hstep

theorem file_of_openSSTable_writeFile {path : List Char} {b : Bytes}
    (hopen : openSSTable (d.writeFile path b) path = some sst) :
    sst.file = d.files.length := by
  have hlookup := (openSSTable_fields hopen).right.left
  rw [Disk.lookup_writeFile_self, Option.some.injEq] at hlookup
  exact hlookup.symm

theorem Tidy.writeImmutable (h : lsm.Tidy)
    (hfits : TablesFit lsm (.writeImmutable now))
    (hstep : lsm.writeImmutable now = some lsm') : lsm'.Tidy := by
  have hsound := (h.sound.writeImmutable hfits hstep).sound
  rcases h.sound.writeImmutable_spec hfits hstep with
    ⟨mt, sst, dir, hphase, _, hdir, hopen, hread, hget, hlsm⟩
  have hext : lsm.dir.disk.Extends dir.disk := by
    rw [hdir]
    exact Disk.extends_writeFile _ _ _
  have hfile : sst.file = lsm.dir.disk.files.length := by
    rw [hdir] at hopen
    exact file_of_openSSTable_writeFile hopen
  subst hlsm
  have hnone : lsm.pending = [] := by
    unfold pending
    rw [hphase]
  have hanchored := h.anchored
  have hfiles := h.files
  have hlt : forall t, t ∈ lsm.levels.flatten ->
      t.file < lsm.dir.disk.files.length :=
    fun t ht => h.sound.file_lt (List.mem_append_left _ ht)
  rw [hnone, List.append_nil] at hanchored hfiles
  exact
    { sound := hsound
      immutables := h.immutables
      taken := by
        intro x hx
        cases hx
      anchored := by
        intro t ht
        rcases List.mem_append.mp ht with hold | hnew
        · exact (hanchored t hold).extends
            (h.sound.readable (List.mem_append_left _ hold)) hext
        rw [List.mem_singleton.mp hnew]
        rcases h.taken mt hphase with ⟨key, hlen, hsome⟩
        apply hread.anchored hlen
        rw [hget]
        exact hsome
      files := by
        change ((lsm.levels.flatten ++ [sst]).map SSTable.file).Nodup
        rw [List.map_append, List.map_singleton, hfile]
        refine List.nodup_append.mpr ⟨hfiles, List.nodup_singleton _, ?_⟩
        intro i hi j hj heq
        rcases List.mem_map.mp hi with ⟨t, ht, hti⟩
        have hless := hlt t ht
        rw [List.mem_singleton.mp hj] at heq
        omega }

theorem Tidy.installTable (h : lsm.Tidy) (hopen : lsm.closed = false)
    (hstep : lsm.installTable = some lsm') : lsm'.Tidy := by
  have hsound := (h.sound.installTable hopen hstep).sound
  rcases installTable_cases hstep with ⟨sst, hphase, hshut | hput⟩
  · rw [hshut.left] at hopen
    cases hopen
  rcases hput with ⟨_, l0, rest, hlevels, hlsm⟩
  subst hlsm
  have hpending : lsm.pending = [sst] := by
    unfold pending
    rw [hphase]
  have hperm : (((l0 ++ [sst]) :: rest).flatten ++ []).Perm
      (lsm.levels.flatten ++ lsm.pending) := by
    rw [hpending, hlevels, List.append_nil, List.flatten_cons,
      List.flatten_cons, List.append_assoc, List.append_assoc]
    exact List.Perm.append_left l0 List.perm_append_comm
  exact
    { sound := hsound
      immutables := h.immutables
      taken := by
        intro x hx
        cases hx
      anchored := fun t ht => h.anchored t (hperm.mem_iff.mp ht)
      files := (hperm.map SSTable.file).nodup_iff.mpr h.files }

theorem Tidy.compactL0 (h : lsm.Tidy) {order : List (Nat × (Bytes × Bool))}
    (hfits : TablesFit lsm (.compactL0 order now))
    (hstep : lsm.compactL0 order now = some lsm') : lsm'.Tidy := by
  have hsound := (h.sound.compactL0 hfits hstep).left.sound
  rcases compactL0_of_fits hfits hstep with ⟨l0, rest, hlevels, hfew | hmany⟩
  · rcases hfew with ⟨_, hsame⟩
    subst hsame
    exact h.same hsound rfl rfl rfl h.immutables h.taken
  rcases hmany with
    ⟨hfour, m, sst, l1, deeper, hmerge, htable, hrest, hlsm⟩
  rcases mergeL0_spec hlevels hfits hmerge with
    ⟨merged, sst', hfound, horder, _, htable', _, hdir, hopen, hread, hget⟩
  rw [htable, Option.some.injEq] at htable'
  subst htable' hrest
  have hfile : sst.file = lsm.dir.disk.files.length := by
    rw [hdir] at hopen
    exact file_of_openSSTable_writeFile hopen
  have hwritten : lsm.dir.disk.Extends m.dir.disk := by
    rw [hdir]
    exact Disk.extends_writeFile _ _ _
  have hremoved := LSMDir.extends_foldl_removeTable l0 m.dir
  have hext := hwritten.trans hremoved
  have hl0 : forall t, t ∈ l0 ->
      t ∈ lsm.levels.flatten ++ lsm.pending := by
    intro t ht
    rw [hlevels]
    exact List.mem_append_left _ (List.mem_append_left _ ht)
  have hanchored : Anchored m.dir.disk sst := by
    rcases List.exists_mem_of_length_pos
      (show 0 < l0.length by omega) with ⟨t, ht⟩
    apply hread.anchored (length_be 8 t.maxOffset)
    rw [hget, get_mergedTable (fun x hx => h.sound.readable (hl0 x hx))
      hfound horder now (length_be 8 _)]
    intro hnone
    exact h.anchored t (hl0 t ht) (List.findSome?_eq_none_iff.mp hnone t
      (List.mem_reverse.mpr ht))
  have hsub : (l1 ++ deeper.flatten ++ lsm.pending).Sublist
      (lsm.levels.flatten ++ lsm.pending) := by
    rw [hlevels, List.flatten_cons, List.flatten_cons]
    exact (List.sublist_append_right l0 _).append (List.Sublist.refl _)
  have hperm : (([] :: (l1 ++ [sst]) :: deeper).flatten ++
      lsm.pending).Perm (sst :: (l1 ++ deeper.flatten ++ lsm.pending)) := by
    rw [List.flatten_cons, List.flatten_cons, List.nil_append,
      List.append_assoc, List.append_assoc, List.append_assoc]
    exact List.perm_middle
  subst hlsm
  exact
    { sound := hsound
      immutables := h.immutables
      taken := h.taken
      anchored := by
        intro t ht
        rcases List.mem_cons.mp (hperm.mem_iff.mp ht) with hnew | hold
        · rw [hnew]
          exact hanchored.extends hread hremoved
        · exact (h.anchored t (hsub.subset hold)).extends
            (h.sound.readable (hsub.subset hold)) hext
      files := by
        apply (hperm.map SSTable.file).nodup_iff.mpr
        rw [List.map_cons, List.nodup_cons]
        constructor
        · intro hmem
          rcases List.mem_map.mp hmem with ⟨t, ht, hsame⟩
          have hlt := h.sound.file_lt (hsub.subset ht)
          omega
        · exact (hsub.map SSTable.file).nodup h.files }

def WritesOffsets : LSMAction -> Prop
  | .put key _ _ => key.length = 8
  | .delete key _ => key.length = 8
  | _ => True

instance : forall a, Decidable (WritesOffsets a)
  | .put key _ _ => inferInstanceAs (Decidable (key.length = 8))
  | .delete key _ => inferInstanceAs (Decidable (key.length = 8))
  | .takeImmutable | .writeImmutable _ | .installTable | .compactL0 _ _
  | .beginClose | .endClose => isTrue trivial

theorem Tidy.step (h : lsm.Tidy) (hopen : lsm.closed = false) {a : LSMAction}
    (hfits : TablesFit lsm a) (hruns : a.Runs) (hoffsets : WritesOffsets a)
    (hstep : lsm.step a = some lsm') : lsm'.Tidy := by
  cases a with
  | put key value now => exact h.put hopen hoffsets hstep
  | delete key now => exact h.delete hopen hstep
  | takeImmutable => exact h.takeImmutable hstep
  | writeImmutable now => exact h.writeImmutable hfits hstep
  | installTable => exact h.installTable hopen hstep
  | compactL0 order now => exact h.compactL0 hfits hstep
  | beginClose => cases hruns
  | endClose => cases hruns

theorem tidy_newLSMTree (config : LSMConfig) (seq : Nat) :
    (newLSMTree .empty config seq).Tidy where
  sound := sound_newLSMTree config seq
  immutables := by
    intro mt hmt
    cases hmt
  taken := by
    intro mt hmt
    cases hmt
  anchored := by
    intro sst hsst
    rcases List.mem_append.mp hsst with hlevels | hpending
    · rcases List.mem_flatten.mp hlevels with ⟨level, hlevel, hmem⟩
      rw [List.eq_of_mem_replicate hlevel] at hmem
      cases hmem
    · cases hpending
  files := by
    have hempty : (newLSMTree .empty config seq).levels.flatten = [] :=
      List.flatten_eq_nil_iff.mpr
        (fun level hlevel => List.eq_of_mem_replicate hlevel)
    rw [hempty]
    exact List.nodup_nil

end LSMTree

end Warm
end ChimeraMQ
