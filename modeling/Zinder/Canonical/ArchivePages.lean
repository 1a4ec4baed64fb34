import Zinder.Canonical.ArchiveValidation

/-!
# Zinder.Canonical.ArchivePages

Walking the archive page by page.

`archivedBlocks` lists the displaced blocks oldest first. A page that starts after a block lists the
blocks before it, newest first (`ArchiveSound.page`); displacements archived in the meantime are
newer than every cursor, so they do not change what is left to read. `archive_paging_complete` puts
the pages of a walk together.
-/

namespace Zinder.Canonical

open OrderedRows List

variable {D : Type} {E : Env D}

/-- Every displaced block with its event, oldest event and lowest height first. -/
def archivedBlocks (ds : List (Displacement E)) : List (Displacement E × VisibleBlock E) :=
  ds.flatMap fun d => d.blocks.map fun v => (d, v)

theorem archivedBlocks_append (a b : List (Displacement E)) :
    archivedBlocks (a ++ b) = archivedBlocks a ++ archivedBlocks b := flatMap_append

theorem map_position_archivedBlocks (ds : List (Displacement E)) :
    (archivedBlocks ds).map (fun x => x.1.position x.2) = displacedPositions ds := by
  simp only [archivedBlocks, displacedPositions, map_flatMap, List.map_map]
  rfl

theorem map_orderRow_archivedBlocks (ds : List (Displacement E)) :
    (archivedBlocks ds).map (fun x => x.1.orderRow x.2) = ds.flatMap Displacement.orderRows := by
  simp only [archivedBlocks, map_flatMap, List.map_map]
  rfl

variable {x : Displacement E × VisibleBlock E}

theorem mem_archivedBlocks {ds : List (Displacement E)} :
    x ∈ archivedBlocks ds ↔ x.1 ∈ ds ∧ x.2 ∈ x.1.blocks := by
  simp only [archivedBlocks, mem_flatMap, mem_map]
  constructor
  · rintro ⟨d, hd, v, hv, rfl⟩
    exact ⟨hd, hv⟩
  · rintro ⟨hd, hv⟩
    exact ⟨x.1, hd, x.2, hv, rfl⟩

/-! ## One page -/

section Page

variable [DecidableEq D] {s : RocksDbCanonicalStore D} {ds : List (Displacement E)}

def CacheValid (ds : List (Displacement E)) (cache : Option ArchiveEventContext) : Prop :=
  ∀ c ∈ cache, ∃ a d b, ds = a ++ d :: b ∧ c = d.context (displacedCount a)

theorem ArchiveSound.context_unique {db : Db D} {window : Nat} (h : ArchiveSound db window ds)
    {a b a' b' : List (Displacement E)} {d d' : Displacement E} (hsplit : ds = a ++ d :: b)
    (hsplit' : ds = a' ++ d' :: b') (hsequence : d.eventSequence = d'.eventSequence) :
    d.context (displacedCount a) = d'.context (displacedCount a') := by
  have hlookup := (h.holds.contexts _ _).mpr ⟨a, d, b, hsplit, rfl, rfl⟩
  rw [hsequence, (h.holds.contexts _ _).mpr ⟨a', d', b', hsplit', rfl, rfl⟩] at hlookup
  exact (Option.some.inj hlookup).symm

/-- A row of a page decodes to its block, whether or not its context is kept. -/
theorem ArchiveSound.decode_cached (h : ArchiveSound s.db s.window ds)
    {cache : Option ArchiveEventContext} (hcache : CacheValid ds cache)
    (hx : x ∈ archivedBlocks ds) :
    ∃ block cache', decodeAndValidateRecordCached E s cache (x.1.orderRow x.2).1
        (x.1.orderRow x.2).2 = .ok (block, cache') ∧
      ArchivedAs x.1 x.2 block ∧ CacheValid ds cache' := by
  obtain ⟨d, v⟩ := x
  obtain ⟨hd, hv⟩ := mem_archivedBlocks.mp hx
  obtain ⟨a, b, hsplit⟩ := append_of_mem hd
  have hvalid := h.valid d hd
  obtain ⟨block, hblock, harchived⟩ := hvalid.decode (h.time_lt d hd) hv (displacedCount a)
  refine ⟨block, some (d.context (displacedCount a)), ?_, harchived, fun c hc => ?_⟩
  · simp only [decodeAndValidateRecordCached, bind_eq_ok]
    refine ⟨_, decodeOrderKey_encode (hvalid.position_fits v), ?_⟩
    cases hfilter : cache.filter fun context =>
        context.eventSequence = (d.position v).eventSequence with
    | some c =>
      obtain ⟨hc, hsequence⟩ := Option.filter_eq_some_iff.mp hfilter
      obtain ⟨a', d', b', hsplit', rfl⟩ := hcache c hc
      rw [h.context_unique hsplit' hsplit (of_decide_eq_true hsequence)]
      simp only [bind_eq_ok]
      exact ⟨_, rfl, block, hblock, rfl⟩
    | none =>
      have hlookup := (h.holds.contexts _ _).mpr ⟨a, d, b, hsplit, rfl, rfl⟩
      have hpos := hvalid.length_pos
      have hcontext : validateEventContext s.window (d.context (displacedCount a)) =
          .ok d.blocks.length := by
        refine validateEventContext_eq_ok.mpr
          ⟨hvalid.sequence_pos.ne', hvalid.epoch_eq, hpos.ne', ?_, hvalid.count, rfl⟩
        exact Nat.le_add_left _ _
      simp only [readEventContext, bind_eq_ok, okOr_eq_ok]
      exact ⟨_, hlookup, _, hcontext, _, rfl, block, hblock, rfl⟩
  · cases hc
    exact ⟨a, d, b, hsplit, rfl⟩

/-- The page loop reads up to `count` blocks and stops at the first row of another kind. -/
theorem ArchiveSound.collect (h : ArchiveSound s.db s.window ds)
    {todo : List (Displacement E × VisibleBlock E)} (htodo : ∀ x ∈ todo, x ∈ archivedBlocks ds)
    {rest : List ByteRow} (hrest : ∀ r ∈ rest, r.1.head? ≠ some orderKeyTag) (count : Nat)
    {cache : Option ArchiveEventContext} (hcache : CacheValid ds cache) :
    ∃ blocks, collectPage E s count cache (todo.map (fun x => x.1.orderRow x.2) ++ rest) =
        .ok blocks ∧
      List.Forall₂ (fun x block => ArchivedAs x.1 x.2 block) (todo.take count) blocks := by
  induction todo generalizing count cache with
  | nil =>
    refine ⟨[], ?_, by simp⟩
    cases count with
    | zero => simp [collectPage]
    | succ count =>
      cases rest with
      | nil => rfl
      | cons r rest =>
        rw [map_nil, nil_append, collectPage, if_pos (hrest r mem_cons_self)]
  | cons x todo ih =>
    cases count with
    | zero => exact ⟨[], by simp [collectPage], by simp⟩
    | succ count =>
      obtain ⟨block, cache', hblock, harchived, hcache'⟩ :=
        h.decode_cached hcache (htodo x mem_cons_self)
      obtain ⟨blocks, hblocks, hall⟩ :=
        ih (fun y hy => htodo y (mem_cons_of_mem _ hy)) count hcache'
      have htag : (x.1.orderRow x.2).1.head? = some orderKeyTag := rfl
      refine ⟨block :: blocks, ?_, .cons harchived hall⟩
      rw [map_cons, cons_append, collectPage, if_neg (not_not.mpr htag)]
      simp only [bind_eq_ok]
      exact ⟨_, hblock, _, hblocks, rfl⟩

/-- The blocks left after a cursor: all of them without one, those before its block otherwise. -/
inductive LeftAfter (ds : List (Displacement E)) :
    Option ArchivePosition → List (Displacement E × VisibleBlock E) → Prop where
  | start {older : List (Displacement E × VisibleBlock E)} (hall : archivedBlocks ds = older) :
      LeftAfter ds none older
  | block {older newer : List (Displacement E × VisibleBlock E)}
      {x : Displacement E × VisibleBlock E} (hsplit : archivedBlocks ds = older ++ x :: newer) :
      LeftAfter ds (some (x.1.position x.2)) older

omit [DecidableEq D] in
theorem key_of_mem_pointerRows {db : Db D} {r : ByteRow} (hr : r ∈ pointerRows db) :
    ∃ hash, r.1 = encodeHashPointerKey hash := by
  have htag := tag_of_mem_pointerRows hr
  obtain ⟨k, x, _, hbytes⟩ := mem_archiveFamily.mp (mem_filter.mp hr).1
  cases k with
  | displacedHashPointer hash =>
    cases hbytes
    exact ⟨hash, rfl⟩
  | displacedState | displacedOrder | displacedEventContext =>
    cases hbytes
    simp [archiveStateKey, encodeOrderKey, encodeEventContextKey, orderKeyTag, hashPointerKeyTag,
      eventContextKeyTag] at htag
  | _ => cases hbytes

/-- A backward iterator from a key between the order rows visits those below it, then the state. -/
theorem ArchiveSound.seekForPrev_eq (h : ArchiveSound s.db s.window ds) {hi : List UInt8}
    {older newer : List (Displacement E × VisibleBlock E)}
    (hsplit : archivedBlocks ds = older ++ newer) (hstate : ∀ r ∈ stateRows ds, r.1 < hi)
    (holder : ∀ r ∈ older.map fun x => x.1.orderRow x.2, r.1 ≤ hi)
    (hnewer : ∀ r ∈ newer.map fun x => x.1.orderRow x.2, hi < r.1)
    (hpointers : ∀ r ∈ pointerRows s.db, hi < r.1) (hcontexts : ∀ r ∈ contextRows 0 ds, hi < r.1) :
    seekForPrev hi (archiveFamily s.db) =
      older.reverse.map (fun x => x.1.orderRow x.2) ++ (stateRows ds).reverse := by
  rw [h.archiveFamily_eq, ← map_orderRow_archivedBlocks, hsplit, map_append, append_assoc,
    ← append_assoc, seekForPrev_append, reverse_append, map_reverse]
  · intro r hr
    exact (mem_append.mp hr).elim (fun hr => List.le_of_lt (hstate r hr)) (holder r)
  · intro r hr
    rw [List.not_le]
    exact (mem_append.mp hr).elim (hnewer r) fun hr =>
      (mem_append.mp hr).elim (hpointers r) (hcontexts r)

theorem ArchiveSound.page_start (h : ArchiveSound s.db s.window ds) {after : Option ArchivePosition}
    {older : List (Displacement E × VisibleBlock E)} (hleft : LeftAfter ds after older) :
    ∃ cache, pageStart E s after =
        .ok (older.reverse.map (fun x => x.1.orderRow x.2) ++ (stateRows ds).reverse, cache) ∧
      CacheValid ds cache := by
  cases hleft with
  | start hall =>
    subst hall
    refine ⟨none, ?_, by simp [CacheValid]⟩
    rw [pageStart, h.seekForPrev_eq (append_nil _).symm]
    · exact fun r hr => lt_of_tag_lt (tag_of_mem_stateRows hr) rfl (by decide)
    · intro r hr
      rw [map_orderRow_archivedBlocks] at hr
      exact List.le_of_lt (lt_of_tag_lt (tag_of_mem_orderRows hr) rfl (by decide))
    · simp
    · intro r hr
      obtain ⟨hash, hkey⟩ := key_of_mem_pointerRows hr
      have hlength := hash.length_eq
      rw [hkey, encodeHashPointerKey, cons_lt_cons_self]
      cases hbytes : hash.bytes with
      | nil => simp [hbytes] at hlength
      | cons b bs => exact nil_lt_cons b bs
    · exact fun r hr => lt_of_tag_lt rfl (tag_of_mem_contextRows hr) (by decide)
  | @block _ newer x hsplit =>
    have hx : x ∈ archivedBlocks ds := by simp [hsplit]
    have hsorted := h.keysSorted_orderRows
    rw [← map_orderRow_archivedBlocks, hsplit, map_append, map_cons] at hsorted
    obtain ⟨_, hupper, hlower⟩ := pairwise_append.mp hsorted
    have htag : (x.1.orderRow x.2).1.head? = some orderKeyTag := rfl
    have hseek : seekForPrev (x.1.orderRow x.2).1 (archiveFamily s.db) =
        (older ++ [x]).reverse.map (fun x => x.1.orderRow x.2) ++ (stateRows ds).reverse := by
      refine h.seekForPrev_eq (hsplit.trans (append_cons older x newer)) ?_ ?_
        (pairwise_cons.mp hupper).1 ?_ ?_
      · exact fun r hr => lt_of_tag_lt (tag_of_mem_stateRows hr) htag (by decide)
      · intro r hr
        rw [map_append, mem_append] at hr
        rcases hr with hr | hr
        · exact List.le_of_lt (hlower r hr _ mem_cons_self)
        · rw [mem_singleton.mp hr]
          exact List.le_refl _
      · exact fun r hr => lt_of_tag_lt htag (tag_of_mem_pointerRows hr) (by decide)
      · exact fun r hr => lt_of_tag_lt htag (tag_of_mem_contextRows hr) (by decide)
    have hread : readExactRow (archiveFamily s.db) (encodeOrderKey (x.1.position x.2)) =
        some (x.1.orderRow x.2).2 := by
      obtain ⟨hd, hv⟩ := mem_archivedBlocks.mp hx
      rw [readExactRow_eq h.fits (k := .displacedOrder (x.1.position x.2))
        ((h.valid x.1 hd).position_fits x.2) rfl,
        (h.holds.order _ _).mpr ⟨x.1, hd, x.2, hv, rfl, rfl⟩]
      rfl
    have hnone : CacheValid ds none := by simp [CacheValid]
    obtain ⟨block, cache, hblock, _, hcache⟩ := h.decode_cached hnone hx
    refine ⟨cache, ?_, hcache⟩
    simp only [pageStart, bind_eq_ok, okOr_eq_ok]
    refine ⟨_, hread, _, hblock, ?_⟩
    rw [show encodeOrderKey (x.1.position x.2) = (x.1.orderRow x.2).1 from rfl, hseek]
    simp

theorem archived_positions {xs : List (Displacement E × VisibleBlock E)}
    {blocks : List DisplacedBlock}
    (h : List.Forall₂ (fun x block => ArchivedAs x.1 x.2 block) xs blocks) :
    blocks.map DisplacedBlock.position = xs.map fun x => x.1.position x.2 := by
  induction h with
  | nil => rfl
  | cons harchived _ ih => rw [map_cons, map_cons, harchived.position, ih]

/-- A page holds the newest blocks that are left; it has a cursor, at its last block, exactly when
more are left. -/
structure PageOf (older : List (Displacement E × VisibleBlock E)) (limit : Nat)
    (page : DisplacedBlockPage) : Prop where
  blocks : List.Forall₂ (fun x block => ArchivedAs x.1 x.2 block) (older.reverse.take limit) page.blocks
  hasMore : page.hasMore = true ↔ limit < older.length
  cursor : limit < older.length → ∃ left x taken, older = left ++ x :: taken ∧
    taken.length + 1 = limit ∧ page.nextCursor = some (x.1.position x.2)

theorem ArchiveSound.page (h : ArchiveSound s.db s.window ds)
    (hstate : readArchiveState s.db s.window = .ok (archiveState ds))
    {after : Option ArchivePosition} {older : List (Displacement E × VisibleBlock E)}
    (hleft : LeftAfter ds after older) {limit : Nat} (hpos : 0 < limit)
    (hlimit : limit ≤ maxPublicPageLimit) :
    ∃ page, displacedBlockPage E s after limit = .ok page ∧ PageOf older limit page := by
  cases ds with
  | nil =>
    obtain ⟨rfl, rfl⟩ : older = [] ∧ after = none := by
      cases hleft with
      | start hall => exact ⟨hall.symm, rfl⟩
      | block hsplit => simp [archivedBlocks] at hsplit
    refine ⟨⟨[], false, none⟩, ?_, by simp, by simp, by simp⟩
    simp only [displacedBlockPage, bind_eq_ok, rejectIf_eq_ok]
    refine ⟨(), by omega, none, hstate, ?_⟩
    simp [rejectIf]
  | cons first rest =>
    obtain ⟨cache, hpage, hcache⟩ := h.page_start hleft
    have holder : ∀ x ∈ older.reverse, x ∈ archivedBlocks (first :: rest) := by
      intro x hx
      have hx := mem_reverse.mp hx
      cases hleft with
      | start hall => rwa [hall]
      | block hsplit =>
        rw [hsplit]
        exact mem_append_left _ hx
    have htags : ∀ r ∈ (stateRows (first :: rest)).reverse, r.1.head? ≠ some orderKeyTag := by
      intro r hr
      rw [tag_of_mem_stateRows (mem_reverse.mp hr)]
      decide
    obtain ⟨found, hfound, harchived⟩ := h.collect holder htags (limit + 1) hcache
    have hlength : found.length = min (limit + 1) older.length := by
      rw [← harchived.length_eq, length_take, length_reverse]
    have hblocks : List.Forall₂ (fun x block => ArchivedAs x.1 x.2 block)
        (older.reverse.take limit) (found.take limit) := by
      have htake := List.forall₂_take limit harchived
      rwa [take_take, Nat.min_eq_left (Nat.le_succ limit)] at htake
    refine ⟨⟨found.take limit, decide (limit < found.length),
      pageCursor (found.take limit) (decide (limit < found.length))⟩, ?_, hblocks, ?_, ?_⟩
    · simp only [displacedBlockPage, bind_eq_ok, rejectIf_eq_ok]
      refine ⟨(), by omega, _, hstate, ?_⟩
      simp only [archiveState, bind_eq_ok]
      exact ⟨_, hpage, found, hfound, rfl⟩
    · simp only [decide_eq_true_eq, hlength]
      omega
    · intro hlt
      obtain ⟨x, taken, htaken⟩ : ∃ x taken, older.drop (older.length - limit) = x :: taken :=
        exists_cons_of_length_pos (by rw [length_drop]; omega)
      have hcount : taken.length + 1 = limit := by
        have := congrArg List.length htaken
        rw [length_drop, length_cons] at this
        omega
      have holder : older = older.take (older.length - limit) ++ x :: taken := by
        rw [← htaken, take_append_drop]
      refine ⟨_, x, taken, holder, hcount, ?_⟩
      have hmore : decide (limit < found.length) = true := by
        rw [decide_eq_true_eq, hlength]
        omega
      have hlast : ((found.take limit).map DisplacedBlock.position).getLast? =
          some (x.1.position x.2) := by
        rw [archived_positions hblocks, take_reverse, htaken, reverse_cons,
          map_append]
        simp
      rw [getLast?_map] at hlast
      rw [pageCursor, hmore, if_pos rfl]
      exact hlast

end Page

/-! ## Walks -/

section Walks

variable [DecidableEq D]

/-- Pages read one after another, each from the cursor of the one before, until a page says that
there are no more; the flag says whether one did. -/
def archiveWalk (E : Env D) : Option ArchivePosition → List (RocksDbCanonicalStore D × Nat) →
    Except CanonicalStoreError (List DisplacedBlock × Bool)
  | _, [] => .ok ([], false)
  | after, (s, limit) :: reads => do
    let page ← displacedBlockPage E s after limit
    if page.hasMore = true then do
      let (blocks, complete) ← archiveWalk E page.nextCursor reads
      .ok (page.blocks ++ blocks, complete)
    else .ok (page.blocks, true)

/-- Page reads with their limits; between two reads further transitions may happen. -/
inductive PageReads : LiveState E → List (LiveState E × Nat) → Prop where
  | nil (st : LiveState E) : PageReads st []
  | cons {st st' : LiveState E} {ds : List (Displacement E)} {limit : Nat}
      {reads : List (LiveState E × Nat)} (run : DisplacementRun st ds st')
      (htime : ∀ d ∈ ds, d.displacedAt < u64Bound) (hpos : 0 < limit)
      (hlimit : limit ≤ maxPublicPageLimit) (hreads : PageReads st' reads) :
      PageReads st ((st', limit) :: reads)

variable {after : Option ArchivePosition} {ds : List (Displacement E)}
  {older : List (Displacement E × VisibleBlock E)}

theorem page_ok {st₀ st : LiveState E} (h : Published st₀) (run : DisplacementRun st₀ ds st)
    (htime : ∀ d ∈ ds, d.displacedAt < u64Bound) (hleft : LeftAfter ds after older) {limit : Nat}
    (hpos : 0 < limit) (hlimit : limit ≤ maxPublicPageLimit) :
    ∃ page, displacedBlockPage E st.store after limit = .ok page ∧ PageOf older limit page := by
  have inv := DisplacementRun.archive h run
  obtain ⟨prior, hprior, _⟩ := (h.run_ready run.liveSteps).archive.readable
  have hstate := hprior
  rw [(readArchiveState_eq_ok hprior).1, inv.holds.state] at hstate
  exact (inv.sound htime).page hstate hleft hpos hlimit

omit [DecidableEq D] in
theorem LeftAfter.append {position : ArchivePosition} (h : LeftAfter ds (some position) older)
    (ds' : List (Displacement E)) : LeftAfter (ds ++ ds') (some position) older := by
  cases h with
  | @block _ newer x hsplit =>
    have hsplit' : archivedBlocks (ds ++ ds') = older ++ x :: (newer ++ archivedBlocks ds') := by
      rw [archivedBlocks_append, hsplit, append_assoc, cons_append]
    exact .block hsplit'

omit [DecidableEq D] in
theorem LeftAfter.next {left taken : List (Displacement E × VisibleBlock E)}
    (h : LeftAfter ds after (left ++ x :: taken)) :
    LeftAfter ds (some (x.1.position x.2)) left := by
  cases h with
  | start hsplit => exact .block hsplit
  | @block _ newer y hsplit =>
    have hsplit' : archivedBlocks ds = left ++ x :: (taken ++ y :: newer) := by
      rw [hsplit, append_assoc, cons_append]
    exact .block hsplit'

/-- A walk reads the blocks that are left, newest first, as many as its limits allow. -/
theorem archiveWalk_eq_ok {st₀ : LiveState E} (h : Published st₀) {reads : List (LiveState E × Nat)}
    {st : LiveState E} {limit : Nat} (run : DisplacementRun st₀ ds st)
    (htime : ∀ d ∈ ds, d.displacedAt < u64Bound) (hpos : 0 < limit)
    (hlimit : limit ≤ maxPublicPageLimit) (hreads : PageReads st reads)
    (hleft : LeftAfter ds after older) :
    ∃ blocks complete, archiveWalk E after
        ((st.store, limit) :: reads.map fun r => (r.1.store, r.2)) = .ok (blocks, complete) ∧
      List.Forall₂ (fun x block => ArchivedAs x.1 x.2 block)
        (older.reverse.take (limit + (reads.map Prod.snd).sum)) blocks ∧
      (complete = true ↔ older.length ≤ limit + (reads.map Prod.snd).sum) := by
  induction reads generalizing st ds limit after older with
  | nil =>
    obtain ⟨page, hpage, hblocks, hmore, _⟩ := page_ok h run htime hleft hpos hlimit
    refine ⟨page.blocks, !page.hasMore, ?_, by simpa using hblocks, ?_⟩
    · simp only [archiveWalk, map_nil, bind_eq_ok]
      refine ⟨page, hpage, ?_⟩
      cases page.hasMore <;> simp
    · simp only [Bool.not_eq_true', ← Bool.not_eq_true, hmore, not_lt, map_nil,
        sum_nil, Nat.add_zero]
  | cons read reads ih =>
    obtain ⟨page, hpage, hblocks, hmore, hcursor⟩ := page_ok h run htime hleft hpos hlimit
    by_cases hlt : limit < older.length
    · -- the next page starts at the cursor, in a store that may have grown
      obtain ⟨left, x, taken, rfl, htaken, hnext⟩ := hcursor hlt
      cases hreads with
      | @cons _ st' ds' limit' _ run' htime' hpos' hlimit' hreads' =>
        have htimes : ∀ d ∈ ds ++ ds', d.displacedAt < u64Bound := by
          intro d hd
          rcases mem_append.mp hd with hd | hd
          · exact htime d hd
          · exact htime' d hd
        obtain ⟨blocks, complete, hwalk, hrest, hcomplete⟩ :=
          ih (run.trans run') htimes hpos' hlimit' hreads' (hleft.next.append ds')
        refine ⟨page.blocks ++ blocks, complete, ?_, ?_, ?_⟩
        · simp only [archiveWalk, bind_eq_ok]
          refine ⟨page, hpage, ?_⟩
          rw [if_pos (hmore.mpr hlt), hnext]
          simp only [bind_eq_ok]
          exact ⟨_, hwalk, rfl⟩
        · have hsplit : ∀ n, (left ++ x :: taken).reverse.take (limit + n) =
              (left ++ x :: taken).reverse.take limit ++ left.reverse.take n := by
            intro n
            have hlength : (x :: taken).reverse.length = limit := by simpa using htaken
            rw [reverse_append, ← hlength, take_length_add_append, take_left']
            rfl
          rw [map_cons, sum_cons, hsplit]
          exact rel_append hblocks hrest
        · rw [hcomplete, map_cons, sum_cons, length_append, length_cons]
          omega
    · refine ⟨page.blocks, true, ?_, ?_, ?_⟩
      · simp only [archiveWalk, bind_eq_ok]
        refine ⟨page, hpage, ?_⟩
        rw [if_neg fun hhas => hlt (hmore.mp hhas)]
      · rw [take_of_length_le (by rw [length_reverse]; omega)]
        rwa [take_of_length_le (by rw [length_reverse]; omega)] at hblocks
      · simp only [true_iff]
        omega

/-- Newest event first, and the highest height first inside an event. -/
def ListedBefore (p q : ArchivePosition) : Prop :=
  q.eventSequence < p.eventSequence ∨ p.eventSequence = q.eventSequence ∧ q.height < p.height

theorem displacedPositions_listed {window : Nat}
    (hascending : ds.Pairwise fun d d' => d.eventSequence < d'.eventSequence)
    (hvalid : ∀ d ∈ ds, d.Valid window) :
    (displacedPositions ds).reverse.Pairwise ListedBefore := by
  refine pairwise_reverse.mpr (pairwise_flatMap.mpr ⟨fun d hd => ?_, ?_⟩)
  · have hheights : (d.blocks.map fun v => v.block.height).Pairwise (· < ·) := by
      rw [(hvalid d hd).heights]
      exact pairwise_lt_range'
    exact pairwise_map.mpr ((pairwise_map.mp hheights).imp fun hlt => .inr ⟨rfl, hlt⟩)
  · refine hascending.imp fun {d d'} hlt p hp q hq => ?_
    obtain ⟨v, _, rfl⟩ := mem_map.mp hp
    obtain ⟨w, _, rfl⟩ := mem_map.mp hq
    exact .inl hlt

/-- Archive paging is complete. A walk that starts in a reachable state reads the displaced blocks
of that state, each as it was displaced, newest event first and highest height first, as far as its
limits go; what is archived between two page reads changes nothing. It ends with a last page as soon
as the limits add up to the number of blocks, and has then read every block once. -/
theorem archive_paging_complete {st₀ st : LiveState E} {ds : List (Displacement E)}
    (h : Published st₀) (run : DisplacementRun st₀ ds st)
    (htime : ∀ d ∈ ds, d.displacedAt < u64Bound) {limit : Nat} (hpos : 0 < limit)
    (hlimit : limit ≤ maxPublicPageLimit) {reads : List (LiveState E × Nat)}
    (hreads : PageReads st reads) :
    ∃ blocks complete, archiveWalk E none
        ((st.store, limit) :: reads.map fun r => (r.1.store, r.2)) = .ok (blocks, complete) ∧
      List.Forall₂ (fun x block => ArchivedAs x.1 x.2 block)
        ((archivedBlocks ds).reverse.take (limit + (reads.map Prod.snd).sum)) blocks ∧
      (complete = true ↔ displacedCount ds ≤ limit + (reads.map Prod.snd).sum) ∧
      (complete = true → blocks.map DisplacedBlock.position = (displacedPositions ds).reverse) ∧
      (displacedPositions ds).reverse.Pairwise ListedBefore := by
  have inv := DisplacementRun.archive h run
  obtain ⟨blocks, complete, hwalk, hblocks, hcomplete⟩ :=
    archiveWalk_eq_ok h run htime hpos hlimit hreads (.start rfl)
  have hlength : (archivedBlocks ds).length = displacedCount ds := by
    rw [← length_displacedPositions, ← map_position_archivedBlocks, length_map]
  rw [hlength] at hcomplete
  refine ⟨blocks, complete, hwalk, hblocks, hcomplete, fun hdone => ?_,
    displacedPositions_listed inv.ascending inv.valid⟩
  have hle := hcomplete.mp hdone
  rw [take_of_length_le (by rw [length_reverse, hlength]; exact hle)] at hblocks
  rw [archived_positions hblocks, map_reverse, map_position_archivedBlocks]

theorem archive_paging_complete_sample : ∃ st₀ st : LiveState sampleEnv,
    ∃ ds, Published st₀ ∧ DisplacementRun st₀ ds st ∧
      ∃ blocks, archiveWalk sampleEnv none [(st.store, 1), (st.store, 2)] = .ok (blocks, true) ∧
        blocks.map DisplacedBlock.position =
          [⟨5, 2, repeatedByte 2⟩, ⟨4, 2, repeatedByte 3⟩, ⟨3, 2, repeatedByte 2⟩] := by
  obtain ⟨st₀, st, ds, hpublished, run, hpositions, htimes⟩ := sampleDisplacements_run
  have hreads : PageReads st [(st, 2)] :=
    .cons (.nil st) (by simp) (by decide) (by decide) (.nil st)
  have hpos : 0 < 1 := by decide
  obtain ⟨blocks, complete, hwalk, _, hcomplete, hblocks, _⟩ :=
    archive_paging_complete hpublished run htimes hpos (by decide) hreads
  have hdone : complete = true := by
    rw [hcomplete, ← length_displacedPositions, hpositions]
    simp
  subst hdone
  refine ⟨st₀, st, ds, hpublished, run, blocks, hwalk, ?_⟩
  rw [hblocks rfl, hpositions]
  rfl

end Walks

end Zinder.Canonical
