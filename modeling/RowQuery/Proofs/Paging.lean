import RowQuery.Proofs.Selection
import RowQuery.Store.Reading
import Mathlib.Algebra.Order.Floor.Div

namespace RowQuery

namespace Pagination

variable {ε α β : Type} {page perPage : UInt64}

/-- A page counted from 1, whose offset does not overflow. -/
structure Fits (page perPage : UInt64) : Prop where
  pos : 0 < page
  offset : (page.toNat - 1) * perPage.toNat < 2 ^ 64

theorem mapM_slice {f : α → Except ε β} {l : List α} {r : List β} (p : Pagination) (h : l.mapM f = .ok r) :
    (p.slice l).mapM f = .ok (p.slice r) := by
  have hpairs := Outcome.mapM_eq_ok.mp h
  rw [slice, slice, ← hpairs.length_eq]
  exact Outcome.mapM_eq_ok.mpr (List.forall₂_take _ (List.forall₂_drop _ hpairs))

theorem toNat_offset (h : Fits page perPage) :
    ((page - 1) * perPage).toNat = (page.toNat - 1) * perPage.toNat := by
  have hpos : 0 < page.toNat := UInt64.lt_iff_toNat_lt.mp h.pos
  have hsub : (page - 1).toNat = page.toNat - 1 := UInt64.toNat_sub_of_le page 1 (UInt64.le_iff_toNat_le.mpr hpos)
  rw [UInt64.toNat_mul, hsub, Nat.mod_eq_of_lt h.offset]

theorem slice_page (hoffset : (page.toNat - 1) * perPage.toNat < 2 ^ 64) (rows : List α) :
    (ofPage page perPage).slice rows = (rows.drop ((page.toNat - 1) * perPage.toNat)).take perPage.toNat := by
  rw [ofPage, slice_limit]
  by_cases hpos : 0 < page
  · rw [if_pos hpos, Option.map_some, Option.getD_some, toNat_offset ⟨hpos, hoffset⟩]
  · have hzero : page.toNat = 0 := by
      rw [UInt64.lt_iff_toNat_lt] at hpos
      exact Nat.eq_zero_of_not_pos hpos
    rw [if_neg hpos, hzero, Nat.zero_sub, Nat.zero_mul]
    rfl

theorem take_window (rows : List α) (size i : Nat) :
    rows.extract (i * size) (min ((i + 1) * size) rows.length) = (rows.drop (i * size)).take size := by
  have hlength : min ((i + 1) * size) rows.length - i * size = min size (rows.drop (i * size)).length := by
    rw [List.length_drop, Nat.succ_mul]
    omega
  rw [List.extract_eq_take_drop, hlength, ← List.take_eq_take_min]

theorem slice_ofPage (h : Fits page perPage) (rows : List α) :
    (ofPage page perPage).slice rows =
      rows.extract ((page.toNat - 1) * perPage.toNat) (min (page.toNat * perPage.toNat) rows.length) := by
  have hpage : page.toNat - 1 + 1 = page.toNat := Nat.sub_add_cancel (UInt64.lt_iff_toNat_lt.mp h.pos)
  have hwindow := take_window rows perPage.toNat (page.toNat - 1)
  rw [hpage] at hwindow
  rw [slice_page h.offset, hwindow]

end Pagination

namespace Page

/-- What a page of a list of rows should hold. -/
def ofRows (rows : List Row) (perPage page : UInt64) : Page where
  data := rows.extract ((page.toNat - 1) * perPage.toNat) (min (page.toNat * perPage.toNat) rows.length)
  total := rows.length
  perPage := perPage
  currentPage := page
  lastPage := max 1 (rows.length ⌈/⌉ perPage.toNat)

variable {rows : List Row} {perPage page : UInt64}

theorem lt_ceilDiv_iff (hper : 0 < perPage) (i : Nat) :
    i < rows.length ⌈/⌉ perPage.toNat ↔ i * perPage.toNat < rows.length := by
  rw [← Nat.not_le, ← Nat.not_le, Nat.mul_comm]
  exact not_congr (ceilDiv_le_iff_le_mul (UInt64.lt_iff_toNat_lt.mp hper))

theorem data_ofRows_ne_nil (hper : 0 < perPage) (hpage : 0 < page) :
    (ofRows rows perPage page).data ≠ [] ↔ page.toNat - 1 < rows.length ⌈/⌉ perPage.toNat := by
  have hpos : 0 < page.toNat := UInt64.lt_iff_toNat_lt.mp hpage
  have hlt : (page.toNat - 1) * perPage.toNat < page.toNat * perPage.toNat :=
    Nat.mul_lt_mul_of_pos_right (by omega) (UInt64.lt_iff_toNat_lt.mp hper)
  rw [lt_ceilDiv_iff hper, ← List.length_pos_iff, ofRows, List.extract_eq_take_drop, List.length_take,
    List.length_drop]
  omega

theorem data_ofRows_eq_nil (hper : 0 < perPage) (hpage : 0 < page)
    (hlast : max 1 (rows.length ⌈/⌉ perPage.toNat) < page.toNat) : (ofRows rows perPage page).data = [] := by
  by_contra hne
  have hstart := (data_ofRows_ne_nil hper hpage).mp hne
  omega

theorem flatMap_window (rows : List Row) (size count : Nat) :
    (List.range count).flatMap (fun i => rows.extract (i * size) (min ((i + 1) * size) rows.length)) =
      rows.take (count * size) := by
  induction count with
  | zero => simp
  | succ count ih =>
      rw [List.range_succ, List.flatMap_append, ih, List.flatMap_singleton, Pagination.take_window, Nat.succ_mul,
        List.take_add]

theorem fits_of_lt_last {i : Nat} (hper : 0 < perPage) (hlength : rows.length < 2 ^ 64)
    (hi : i < max 1 (rows.length ⌈/⌉ perPage.toNat)) :
    (UInt64.ofNat (i + 1)).toNat = i + 1 ∧ Pagination.Fits (.ofNat (i + 1)) perPage := by
  have hper' : 0 < perPage.toNat := UInt64.lt_iff_toNat_lt.mp hper
  have hsmall : i + 1 < 2 ^ 64 ∧ i * perPage.toNat < 2 ^ 64 := by
    rcases Nat.eq_zero_or_pos i with rfl | hpos
    · simp
    -- A page that starts inside the rows has a number that is at most the place where it starts.
    · have hstart : i * perPage.toNat < rows.length := (lt_ceilDiv_iff hper i).mp (by omega)
      have hle : i ≤ i * perPage.toNat := Nat.le_mul_of_pos_right i hper'
      omega
  have htoNat : (UInt64.ofNat (i + 1)).toNat = i + 1 := UInt64.toNat_ofNat_of_lt' hsmall.1
  refine ⟨htoNat, ?_, ?_⟩
  · rw [UInt64.lt_iff_toNat_lt, htoNat]
    exact Nat.succ_pos i
  · rw [htoNat]
    exact hsmall.2

end Page

namespace Store

variable {s : Store} {q : Query} {rows : List Row}

theorem get_paginated (hall : q.pagination = none) (h : s.get q = .ok rows) (p : Pagination) :
    s.get { q with pagination := some p } = .ok (p.slice rows) := by
  obtain ⟨tuples, htuples, hrows⟩ := Outcome.bind_eq_ok.mp h
  obtain ⟨joined, hjoined, htests, rfl⟩ := selectTuples_eq_ok.mp htuples
  rw [hall] at hrows
  have hcut : s.selectTuples { q with pagination := some p } = .ok (p.slice (sortedBy (Tuple.order q.orders)
      (joined.filter (passes (·.meetsAll q.clauses))))) := selectTuples_eq_ok.mpr ⟨joined, hjoined, htests, rfl⟩
  rw [get, hcut]
  exact p.mapM_slice hrows

theorem count_of_get (hall : q.pagination = none) (h : s.get q = .ok rows) : s.count q = .ok rows.length := by
  obtain ⟨tuples, htuples, hrows⟩ := Outcome.bind_eq_ok.mp h
  obtain ⟨joined, hjoined, htests, rfl⟩ := selectTuples_eq_ok.mp htuples
  rw [hall] at hrows
  have hstripped : s.selectTuples q.forCount = .ok (sortedBy (Tuple.order [])
      (joined.filter (passes (·.meetsAll q.clauses)))) := selectTuples_eq_ok.mpr ⟨joined, hjoined, htests, rfl⟩
  rw [count, hstripped, ← (Outcome.mapM_eq_ok.mp hrows).length_eq]
  exact congrArg Except.ok ((sortedBy_perm _ _).length_eq.trans (sortedBy_perm _ _).length_eq.symm)

theorem paginate_eq_ofRows (hall : q.pagination = none) (h : s.get q = .ok rows) {perPage page : UInt64}
    (hper : 0 < perPage) (hpage : Pagination.Fits page perPage) :
    s.paginate q perPage (some page) = .ok (.ofRows rows perPage page) := by
  have hne : perPage ≠ 0 := by
    rintro rfl
    exact absurd hper (by decide)
  have hmax : max page 1 = page := by
    show (if page ≤ 1 then 1 else page) = page
    have hpos : 1 ≤ page := UInt64.le_iff_toNat_le.mpr (UInt64.lt_iff_toNat_lt.mp hpage.pos)
    split
    · exact UInt64.le_antisymm hpos ‹_›
    · rfl
  have hdata := get_paginated hall h (.ofPage page perPage)
  rw [Pagination.slice_ofPage hpage] at hdata
  have htotal : (Pagination.ofPage page perPage).totalPages rows.length =
      max 1 (rows.length ⌈/⌉ perPage.toNat) := if_neg hne
  simp only [paginate, if_neg hne, Option.getD_some, hmax, count_of_get hall h, Query.paginate, hdata, htotal,
    bind, Except.bind]
  rfl

theorem paginate_limit (s : Store) (q : Query) (limit perPage : UInt64) (page : Option UInt64) :
    s.paginate (q.limit limit) perPage page = s.paginate q perPage page := rfl

theorem mapM_paginate (hall : q.pagination = none) (h : s.get q = .ok rows) {perPage : UInt64} (hper : 0 < perPage)
    (hlength : rows.length < 2 ^ 64) :
    (List.range (max 1 (rows.length ⌈/⌉ perPage.toNat))).mapM
        (fun i => s.paginate q perPage (some (.ofNat (i + 1)))) =
      .ok ((List.range (max 1 (rows.length ⌈/⌉ perPage.toNat))).map fun i =>
        .ofRows rows perPage (.ofNat (i + 1))) := by
  rw [Outcome.mapM_eq_ok, List.forall₂_map_right_iff, List.forall₂_same]
  intro i hi
  exact paginate_eq_ofRows hall h hper (Page.fits_of_lt_last hper hlength (List.mem_range.mp hi)).2

theorem flatMap_data (rows : List Row) {perPage : UInt64} (hper : 0 < perPage) (hlength : rows.length < 2 ^ 64) :
    ((List.range (max 1 (rows.length ⌈/⌉ perPage.toNat))).map fun i =>
      Page.ofRows rows perPage (.ofNat (i + 1))).flatMap Page.data = rows := by
  have hpages : ∀ i ∈ List.range (max 1 (rows.length ⌈/⌉ perPage.toNat)),
      (Page.ofRows rows perPage (.ofNat (i + 1))).data =
        rows.extract (i * perPage.toNat) (min ((i + 1) * perPage.toNat) rows.length) := by
    intro i hi
    obtain ⟨htoNat, -⟩ := Page.fits_of_lt_last hper hlength (List.mem_range.mp hi)
    rw [Page.ofRows, htoNat, Nat.add_sub_cancel]
  have hall : rows.length ≤ max 1 (rows.length ⌈/⌉ perPage.toNat) * perPage.toNat := by
    have hceil : ¬rows.length ⌈/⌉ perPage.toNat < rows.length ⌈/⌉ perPage.toNat := Nat.lt_irrefl _
    rw [Page.lt_ceilDiv_iff hper, Nat.not_lt] at hceil
    exact hceil.trans (Nat.mul_le_mul_right _ (Nat.le_max_right _ _))
  rw [List.flatMap_map, List.flatMap_congr hpages, Page.flatMap_window, List.take_of_length_le hall]

theorem hasMore_ofRows {perPage page : UInt64} (hper : 0 < perPage) (hpage : 0 < page)
    (hlength : rows.length < 2 ^ 64) :
    (Page.ofRows rows perPage page).hasMore = true ↔
      ∃ later, page < later ∧ Pagination.Fits later perPage ∧ (Page.ofRows rows perPage later).data ≠ [] := by
  have hpos : 0 < page.toNat := UInt64.lt_iff_toNat_lt.mp hpage
  rw [Page.hasMore, decide_eq_true_eq]
  constructor
  · intro hlast
    have hmax : page.toNat < max 1 (rows.length ⌈/⌉ perPage.toNat) := hlast
    obtain ⟨htoNat, hfits⟩ := Page.fits_of_lt_last hper hlength hmax
    refine ⟨.ofNat (page.toNat + 1), ?_, hfits, (Page.data_ofRows_ne_nil hper hfits.pos).mpr ?_⟩
    · rw [UInt64.lt_iff_toNat_lt, htoNat]
      exact Nat.lt_succ_self page.toNat
    · rw [htoNat]
      omega
  · rintro ⟨later, hlater, hfits, hdata⟩
    have hstart := (Page.data_ofRows_ne_nil hper hfits.pos).mp hdata
    rw [UInt64.lt_iff_toNat_lt] at hlater
    show page.toNat < max 1 (rows.length ⌈/⌉ perPage.toNat)
    omega

/-- The pages of a query are a partition of what it answers without pagination: each is its own part of the
rows, those from the first to the last one give all rows in order, those after the last one are empty, and
more is to come as long as a later page has rows. A limit that is set before does not matter. The bound on the
number of rows is that of a machine integer. -/
theorem pages_partition (s : Store) (q : Query) :
    (∀ limit perPage page, s.paginate (q.limit limit) perPage page = s.paginate q perPage page) ∧
    (q.pagination = none → ∀ rows, s.get q = .ok rows → s.count q = .ok rows.length ∧
      ∀ perPage, 0 < perPage →
        (∀ page, Pagination.Fits page perPage → s.paginate q perPage (some page) = .ok (.ofRows rows perPage page) ∧
          (max 1 (rows.length ⌈/⌉ perPage.toNat) < page.toNat → (Page.ofRows rows perPage page).data = [])) ∧
        (rows.length < 2 ^ 64 →
          (∃ pages, (List.range (max 1 (rows.length ⌈/⌉ perPage.toNat))).mapM
              (fun i => s.paginate q perPage (some (.ofNat (i + 1)))) = .ok pages ∧ pages.flatMap Page.data = rows) ∧
          ∀ page p, Pagination.Fits page perPage → s.paginate q perPage (some page) = .ok p →
            (p.hasMore = true ↔ ∃ later p', page < later ∧ Pagination.Fits later perPage ∧
              s.paginate q perPage (some later) = .ok p' ∧ p'.data ≠ []))) := by
  refine ⟨paginate_limit s q, fun hall rows h => ⟨count_of_get hall h, ?_⟩⟩
  intro perPage hper
  refine ⟨?_, fun hlength => ⟨?_, ?_⟩⟩
  · intro page hpage
    exact ⟨paginate_eq_ofRows hall h hper hpage, Page.data_ofRows_eq_nil hper hpage.pos⟩
  · exact ⟨_, mapM_paginate hall h hper hlength, flatMap_data rows hper hlength⟩
  · intro page p hpage hp
    rw [paginate_eq_ofRows hall h hper hpage] at hp
    rw [← Except.ok.inj hp, hasMore_ofRows hper hpage.pos hlength]
    constructor
    · rintro ⟨later, hlater, hfits, hdata⟩
      exact ⟨later, _, hlater, hfits, paginate_eq_ofRows hall h hper hfits, hdata⟩
    · rintro ⟨later, p', hlater, hfits, hp', hdata⟩
      rw [paginate_eq_ofRows hall h hper hfits] at hp'
      exact ⟨later, hlater, hfits, Except.ok.inj hp' ▸ hdata⟩

theorem pages_partition_purchases :
    ∃ rows pages p, shop.get .purchases = .ok rows ∧ rows.length = 2 ∧
      (List.range 2).mapM (fun i => shop.paginate .purchases 1 (some (.ofNat (i + 1)))) = .ok pages ∧
      pages.flatMap Page.data = rows ∧
      shop.paginate .purchases 1 (some 5) = .ok p ∧ p.data = [] ∧ p.hasMore = false := by
  have hget : (shop.get .purchases).toOption.map List.length = some 2 := by decide
  cases h : shop.get .purchases with
  | error e => simp [h, Except.toOption] at hget
  | ok rows =>
      rw [h] at hget
      have hlength : rows.length = 2 := Option.some.inj hget
      have hfits : Pagination.Fits 5 1 := ⟨by decide, by decide⟩
      have hlast : max 1 (rows.length ⌈/⌉ (1 : UInt64).toNat) = 2 := by rw [hlength]; rfl
      obtain ⟨-, hpages⟩ := (pages_partition shop .purchases).2 rfl rows h
      obtain ⟨hpage, hall⟩ := hpages 1 (by decide)
      obtain ⟨hfive, hafter⟩ := hpage 5 hfits
      obtain ⟨⟨pages, hmapM, hdata⟩, -⟩ := hall (by rw [hlength]; decide)
      rw [hlast] at hmapM hafter
      refine ⟨rows, pages, _, rfl, hlength, hmapM, hdata, hfive, hafter (by decide), ?_⟩
      rw [Page.hasMore, Page.ofRows, hlast]
      rfl

end Store

end RowQuery
