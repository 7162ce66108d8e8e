import Mathlib.Data.List.Basic
import Mathlib.Data.List.Chain
import Mathlib.Data.List.Induction
import Mathlib.Data.List.TakeWhile
import Sylar.Lib.Bytes
import Sylar.Lib.Splitter
import Sylar.Log.Pattern

/- The patterns of a log formatter as a language.

   A pattern is a list of segments and what is left behind the last one (`Tail`): nothing,
   a `%` alone, or a `%d{` without its brace. `parse` finds them and `render` puts them
   together again, each the other's inverse (`render_parse`, `parse_render`), so that a
   pattern is well formed in one way at most.

   The scan takes `%%` for the letter `%`, which no item has; it joins the formats of all
   `%d{..}` into one for every date; it does not see a `%` at the end, and it reads behind
   the string after a `%d` at the end. `patterns_parsed_iff` says which patterns come
   through. -/
namespace Sylar.Log
open Sylar.Lib

/-! ## Segments -/

inductive Seg where
  | text (s : Text)
  /-- `%%` -/
  | percent
  /-- `%d`, with a format or plain. -/
  | date (fmt : Option Text)
  /-- `%` and a letter. -/
  | item (c : UInt8)
  deriving DecidableEq, Repr

/-- What stands behind the last segment. -/
inductive Tail where
  | none
  | percent
  /-- `%d{` and text without a brace that closes. -/
  | unclosed (s : Text)
  deriving DecidableEq, Repr

def Seg.render : Seg → Text
  | .text s => s
  | .percent => [0x25, 0x25]
  | .date none => [0x25, 0x64]
  | .date (some fmt) => 0x25 :: 0x64 :: 0x7b :: (fmt ++ [0x7d])
  | .item c => [0x25, c]

def Tail.render : Tail → Text
  | .none => []
  | .percent => [0x25]
  | .unclosed s => 0x25 :: 0x64 :: 0x7b :: s

def render (segs : List Seg) (tail : Tail) : Text := segs.flatMap Seg.render ++ tail.render

/-- A segment by itself. -/
def Seg.Ok : Seg → Prop
  | .text s => s ≠ [] ∧ 0x25 ∉ s
  | .date (some fmt) => 0x7d ∉ fmt
  | .item c => c ≠ 0x25 ∧ c ≠ 0x64
  | _ => True

/-- Two segments in a row: texts are as long as they can be, and a brace behind `%d` is the start
of its format. -/
def Seg.Before : Seg → Seg → Prop
  | .text _, .text _ => False
  | .date none, .text s => s.head? ≠ some 0x7b
  | _, _ => True

structure WellFormed (segs : List Seg) (tail : Tail) : Prop where
  ok : ∀ seg ∈ segs, seg.Ok
  chain : segs.IsChain Seg.Before
  tail : ∀ s, tail = .unclosed s → 0x7d ∉ s

/-! ## Parsing -/

/-- The first segment and the rest, or what stands there instead. -/
def next : Text → Tail ⊕ (Seg × Text)
  | [] => .inl .none
  | [c] => if c = 0x25 then .inl .percent else .inr (.text [c], [])
  | c :: d :: rest =>
    if c ≠ 0x25 then
      .inr (.text ((c :: d :: rest).takeWhile (· ≠ 0x25)), (c :: d :: rest).dropWhile (· ≠ 0x25))
    else if d = 0x25 then .inr (.percent, rest)
    else if d ≠ 0x64 then .inr (.item d, rest)
    else if rest.head? = some 0x7b then
      match cut 0x7d rest.tail with
      | none => .inl (.unclosed rest.tail)
      | some (fmt, rest) => .inr (.date (some fmt), rest)
    else .inr (.date none, rest)

/-- What may stand behind a segment. -/
def Seg.Stops (rest : Text) : Seg → Prop
  | .text _ => ∀ c ∈ rest.head?, c = 0x25
  | .date none => rest.head? ≠ some 0x7b
  | _ => True

/-- What `next` finds in `p`. -/
def Found (p : Text) : Tail ⊕ (Seg × Text) → Prop
  | .inl tail => tail.render = p ∧ ∀ s, tail = .unclosed s → 0x7d ∉ s
  | .inr (seg, rest) => seg.render ++ rest = p ∧ seg.Ok ∧ seg.Stops rest ∧ rest.length < p.length

theorem next_found (p : Text) : Found p (next p) := by
  fun_cases next p with
  | case1 => exact ⟨rfl, fun s h => by cases h⟩
  | case2 => exact ⟨rfl, fun s h => by cases h⟩
  | case3 c hc => exact ⟨rfl, by simpa [Seg.Ok] using Ne.symm hc, by simp [Seg.Stops], by simp⟩
  | case4 c d rest hc =>
    have hsplit := List.takeWhile_append_dropWhile (p := fun x : UInt8 => decide (x ≠ 0x25)) (l := c :: d :: rest)
    refine ⟨hsplit, ⟨?_, ?_⟩, ?_, ?_⟩
    · simp [hc]
    · intro hmem
      simpa using List.mem_takeWhile_imp hmem
    · intro x hx
      have hhead := List.head?_dropWhile_not (fun x : UInt8 => decide (x ≠ 0x25)) (c :: d :: rest)
      rw [Option.mem_def.mp hx] at hhead
      simpa using hhead
    · have hlen := congrArg List.length hsplit
      rw [List.length_append] at hlen
      have hpos : 0 < ((c :: d :: rest).takeWhile fun x => decide (x ≠ 0x25)).length := by simp [hc]
      omega
  | case5 c rest hc =>
    rw [not_not.mp hc]
    exact ⟨rfl, trivial, trivial, by simp only [List.length_cons]; omega⟩
  | case6 c d rest hc hpercent hd =>
    rw [not_not.mp hc]
    exact ⟨rfl, ⟨hpercent, hd⟩, trivial, by simp only [List.length_cons]; omega⟩
  | case7 c d rest hc hpercent hd hbrace hcut =>
    obtain ⟨inner, rfl⟩ := List.head?_eq_some_iff.mp hbrace
    rw [not_not.mp hc, not_not.mp hd]
    refine ⟨rfl, ?_⟩
    intro s h
    cases h
    exact cut_eq_none hcut
  | case8 c d rest hc hpercent hd hbrace fmt rest' hcut =>
    obtain ⟨inner, rfl⟩ := List.head?_eq_some_iff.mp hbrace
    obtain ⟨rfl, hfmt⟩ := cut_eq_some hcut
    rw [not_not.mp hc, not_not.mp hd]
    refine ⟨by simp [Seg.render], hfmt, trivial, ?_⟩
    simp only [List.length_cons, List.length_append]
    omega
  | case9 c d rest hc hpercent hd hbrace =>
    rw [not_not.mp hc, not_not.mp hd]
    exact ⟨rfl, trivial, hbrace, by simp only [List.length_cons]; omega⟩

/-- What `next` finds again. -/
theorem next_render {seg : Seg} {rest : Text} (hok : seg.Ok) (hstops : seg.Stops rest) :
    next (seg.render ++ rest) = .inr (seg, rest) := by
  cases seg with
  | text s =>
    obtain ⟨hne, hs⟩ := hok
    obtain ⟨c, s, rfl⟩ := List.exists_cons_of_ne_nil hne
    have hall : ∀ x ∈ c :: s, decide (x ≠ 0x25) = true := by
      intro x hx
      exact decide_eq_true fun heq => hs (heq ▸ hx)
    have hc : c ≠ 0x25 := of_decide_eq_true (hall c List.mem_cons_self)
    have hrest : rest.takeWhile (fun x => decide (x ≠ 0x25)) = [] ∧
        rest.dropWhile (fun x => decide (x ≠ 0x25)) = rest := by
      cases rest with
      | nil => exact ⟨rfl, rfl⟩
      | cons x more =>
        have hx : x = 0x25 := hstops x rfl
        simp [hx]
    have htake : (c :: s ++ rest).takeWhile (fun x => decide (x ≠ 0x25)) = c :: s := by
      rw [List.takeWhile_append_of_pos hall, hrest.1, List.append_nil]
    have hdrop : (c :: s ++ rest).dropWhile (fun x => decide (x ≠ 0x25)) = rest := by
      rw [List.dropWhile_append_of_pos hall, hrest.2]
    show next (c :: (s ++ rest)) = _
    cases hmore : s ++ rest with
    | nil =>
      obtain ⟨rfl, rfl⟩ := List.append_eq_nil_iff.mp hmore
      simp [next, hc]
    | cons d more =>
      rw [List.cons_append, hmore] at htake hdrop
      rw [next, if_pos hc, htake, hdrop]
  | percent => simp [next, Seg.render]
  | item c =>
    obtain ⟨hpercent, hd⟩ := hok
    simp [next, Seg.render, hpercent, hd]
  | date fmt =>
    cases fmt with
    | none =>
      have hbrace : ¬ rest.head? = some 0x7b := hstops
      simp [next, Seg.render, hbrace]
    | some fmt =>
      have hcut : cut 0x7d (fmt ++ 0x7d :: rest) = some (fmt, rest) := cut_append hok rest
      simp [next, Seg.render, hcut]

theorem next_render_tail {tail : Tail} (h : ∀ s, tail = .unclosed s → 0x7d ∉ s) :
    next tail.render = .inl tail := by
  cases tail with
  | none => rfl
  | percent => rfl
  | unclosed s => simp [next, Tail.render, cut_of_not_mem (h s rfl)]

/-- The segments of a pattern. -/
def parse (p : Text) : List Seg × Tail :=
  match h : next p with
  | .inl tail => ([], tail)
  | .inr (seg, rest) =>
    have : rest.length < p.length := by
      have hfound := next_found p
      rw [h] at hfound
      exact hfound.2.2.2
    let (segs, tail) := parse rest
    (seg :: segs, tail)
termination_by p.length

theorem parse_inl {p : Text} {tail : Tail} (h : next p = .inl tail) : parse p = ([], tail) := by
  rw [parse]
  split
  · rename_i t ht
    cases h.symm.trans ht
    rfl
  · rename_i seg rest hr
    cases h.symm.trans hr

theorem parse_inr {p rest : Text} {seg : Seg} (h : next p = .inr (seg, rest)) :
    parse p = (seg :: (parse rest).1, (parse rest).2) := by
  rw [parse]
  split
  · rename_i t ht
    cases h.symm.trans ht
  · rename_i seg' rest' hr
    cases h.symm.trans hr
    rfl

theorem render_cons (seg : Seg) (segs : List Seg) (tail : Tail) :
    render (seg :: segs) tail = seg.render ++ render segs tail := by
  simp [render]

/-- Two segments found in a row. -/
theorem before_of_next {seg : Seg} {rest : Text} (hstops : seg.Stops rest) {seg' : Seg} {rest' : Text}
    (h : next rest = .inr (seg', rest')) : seg.Before seg' := by
  have hfound := next_found rest
  rw [h] at hfound
  obtain ⟨hrender, hok, -, -⟩ := hfound
  cases seg' with
  | text s =>
    obtain ⟨hne, hs⟩ := hok
    obtain ⟨c, s, rfl⟩ := List.exists_cons_of_ne_nil hne
    rw [← hrender] at hstops
    cases seg with
    | text t =>
      have hc : c = 0x25 := hstops c rfl
      exact absurd (hc ▸ List.mem_cons_self) hs
    | date fmt =>
      cases fmt with
      | none => exact hstops
      | some fmt => trivial
    | percent => trivial
    | item d => trivial
  | percent => cases seg with
    | date fmt => cases fmt <;> trivial
    | _ => trivial
  | date fmt => cases seg with
    | date fmt => cases fmt <;> trivial
    | _ => trivial
  | item c => cases seg with
    | date fmt => cases fmt <;> trivial
    | _ => trivial

/-- Parsing loses nothing, and what it finds is well formed. -/
theorem parse_spec (p : Text) : render (parse p).1 (parse p).2 = p ∧ WellFormed (parse p).1 (parse p).2 := by
  induction hn : p.length using Nat.strongRecOn generalizing p with
  | ind n ih =>
    have hfound := next_found p
    cases h : next p with
    | inl tail =>
      rw [h] at hfound
      rw [parse_inl h]
      exact ⟨hfound.1, by simp, List.isChain_nil, hfound.2⟩
    | inr found =>
      obtain ⟨seg, rest⟩ := found
      rw [h] at hfound
      obtain ⟨hrender, hok, hstops, hlt⟩ := hfound
      obtain ⟨ihrender, ihwf⟩ := ih rest.length (by omega) rest rfl
      rw [parse_inr h]
      refine ⟨by rw [render_cons, ihrender, hrender], List.forall_mem_cons.mpr ⟨hok, ihwf.ok⟩,
        List.isChain_cons.mpr ⟨?_, ihwf.chain⟩, ihwf.tail⟩
      intro seg' hseg'
      cases hnext : next rest with
      | inl tail =>
        rw [parse_inl hnext] at hseg'
        cases hseg'
      | inr found =>
        rw [parse_inr hnext] at hseg'
        cases hseg'
        exact before_of_next hstops hnext

theorem render_parse (p : Text) : render (parse p).1 (parse p).2 = p := (parse_spec p).1

/-- What stands behind a segment of a well-formed list. -/
theorem WellFormed.stops {seg : Seg} {segs : List Seg} {tail : Tail} (h : WellFormed (seg :: segs) tail) :
    seg.Stops (render segs tail) := by
  have hfirst : (∃ s more, segs = .text s :: more) ∨ ∀ c ∈ (render segs tail).head?, c = 0x25 := by
    cases segs with
    | nil =>
      right
      cases tail <;> simp [render, Tail.render]
    | cons seg' more =>
      cases seg' with
      | text s => exact Or.inl ⟨s, more, rfl⟩
      | percent => simp [render, Seg.render]
      | item c => simp [render, Seg.render]
      | date fmt => cases fmt <;> simp [render, Seg.render]
  cases seg with
  | text t =>
    rcases hfirst with ⟨s, more, rfl⟩ | hall
    · exact ((List.isChain_cons.mp h.chain).1 (.text s) rfl).elim
    · exact hall
  | date fmt =>
    cases fmt with
    | none =>
      rcases hfirst with ⟨s, more, rfl⟩ | hall
      · have hbefore : s.head? ≠ some 0x7b := (List.isChain_cons.mp h.chain).1 (.text s) rfl
        obtain ⟨c, s, rfl⟩ := List.exists_cons_of_ne_nil (h.ok (.text s) (by simp)).1
        exact hbefore
      · intro hbrace
        exact absurd (hall 0x7b hbrace) (by decide)
    | some fmt => trivial
  | percent => trivial
  | item c => trivial

/-- A well-formed list is found again. -/
theorem parse_render {segs : List Seg} {tail : Tail} (h : WellFormed segs tail) :
    parse (render segs tail) = (segs, tail) := by
  induction segs with
  | nil => exact parse_inl (next_render_tail h.tail)
  | cons seg segs ih =>
    obtain ⟨hok, hoks⟩ := List.forall_mem_cons.mp h.ok
    have hrest := ih ⟨hoks, (List.isChain_cons.mp h.chain).2, h.tail⟩
    rw [render_cons, parse_inr (next_render hok h.stops), hrest]

/-! ## The scan of a segment -/

/-- The formats of the dates, empty for a plain `%d`. -/
def dateFormats (segs : List Seg) : List Text :=
  segs.filterMap fun seg =>
    match seg with
    | .date fmt => some (fmt.getD [])
    | _ => none

/-- The entry the scan makes of a segment. -/
def Seg.piece : Seg → Piece
  | .text s => .literal s
  | .percent => .letter 0x25
  | .date _ => .letter 0x64
  | .item c => .letter c

/-- The scan behind the segments. -/
structure Scanned (segs : List Seg) (s : Scan) : Prop where
  patterns : s.flush.patterns = segs.map Seg.piece
  tmp : s.tmp ≠ [] → ∃ t, segs.getLast? = some (.text t)
  dateformat : s.dateformat = (dateFormats segs).flatten
  place : s.place = if segs.getLast? = some (.date none) then .date else .literal

section
variable (patterns : List Piece) (tmp dateformat : Text)

theorem scan_text {s : Text} (h : 0x25 ∉ s) :
    s.foldl Scan.step ⟨patterns, tmp, dateformat, .literal⟩ = ⟨patterns, tmp ++ s, dateformat, .literal⟩ := by
  induction s generalizing tmp with
  | nil => simp
  | cons c s ih =>
    obtain ⟨hc, hs⟩ := not_or.mp (List.mem_cons.not.mp h)
    have hstep : Scan.step ⟨patterns, tmp, dateformat, .literal⟩ c = ⟨patterns, tmp ++ [c], dateformat, .literal⟩ := by
      simp [Scan.step, Scan.literal, Ne.symm hc]
    rw [List.foldl_cons, hstep, ih (tmp ++ [c]) hs, List.append_assoc]
    rfl

theorem scan_format {fmt : Text} (h : 0x7d ∉ fmt) :
    fmt.foldl Scan.step ⟨patterns, tmp, dateformat, .braces⟩ = ⟨patterns, tmp, dateformat ++ fmt, .braces⟩ := by
  induction fmt generalizing dateformat with
  | nil => simp
  | cons c fmt ih =>
    obtain ⟨hc, hfmt⟩ := not_or.mp (List.mem_cons.not.mp h)
    have hstep : Scan.step ⟨patterns, tmp, dateformat, .braces⟩ c = ⟨patterns, tmp, dateformat ++ [c], .braces⟩ := by
      simp [Scan.step, Ne.symm hc]
    rw [List.foldl_cons, hstep, ih (dateformat ++ [c]) hfmt, List.append_assoc]
    rfl

end

section
variable {segs : List Seg} {s : Scan}

/-- A `%` that is no second one. -/
theorem Scanned.step_percent (h : Scanned segs s) :
    s.step 0x25 = ⟨segs.map Seg.piece, [], (dateFormats segs).flatten, .letter⟩ := by
  have hplace : s.place = .date ∨ s.place = .literal := by
    rw [h.place]
    split
    · exact Or.inl rfl
    · exact Or.inr rfl
  have hstep : s.step 0x25 = { s.flush with place := .letter } := by
    rcases hplace with hplace | hplace <;> simp [Scan.step, hplace, Scan.literal]
  rw [hstep, ← h.patterns, ← h.dateformat]
  rfl

/-- Behind an escape nothing is pending. -/
theorem Scanned.escape {seg : Seg} (h : s = ⟨segs.map Seg.piece ++ [seg.piece], [], (dateFormats segs).flatten ++ (dateFormats [seg]).flatten,
      if seg = .date none then .date else .literal⟩) :
    Scanned (segs ++ [seg]) s := by
  rw [h]
  refine ⟨?_, ?_, ?_, ?_⟩
  · simp [Scan.flush]
  · simp
  · rw [← List.flatten_append, dateFormats, dateFormats, dateFormats, List.filterMap_append]
  · simp

/-- One more segment. -/
theorem Scanned.concat {seg : Seg} (h : Scanned segs s) (hok : seg.Ok)
    (hbefore : ∀ last, segs.getLast? = some last → last.Before seg) :
    Scanned (segs ++ [seg]) (seg.render.foldl Scan.step s) := by
  cases seg with
  | text t =>
    obtain ⟨hne, ht⟩ := hok
    obtain ⟨c, t, rfl⟩ := List.exists_cons_of_ne_nil hne
    -- no text is pending, since two texts do not follow each other
    have htmp : s.tmp = [] := by
      by_contra htmp
      obtain ⟨u, hu⟩ := h.tmp htmp
      exact hbefore _ hu
    have hstep : s.step c = Scan.step ⟨s.patterns, [], s.dateformat, .literal⟩ c := by
      obtain ⟨patterns, tmp, dateformat, place⟩ := s
      have hplace : place = _ := h.place
      cases htmp
      by_cases hlast : segs.getLast? = some (.date none)
      · rw [if_pos hlast] at hplace
        have hc : c ≠ 0x7b := fun heq => hbefore _ hlast (by rw [heq]; rfl)
        rw [hplace, scan_date_of_ne hc]
      · rw [if_neg hlast] at hplace
        rw [hplace]
    have hpatterns : s.patterns = segs.map Seg.piece := by
      rw [← h.patterns]
      simp [Scan.flush, htmp]
    have hscan : (c :: t).foldl Scan.step s = ⟨s.patterns, c :: t, s.dateformat, .literal⟩ := by
      rw [List.foldl_cons, hstep, ← List.foldl_cons]
      exact scan_text s.patterns [] s.dateformat ht
    rw [Seg.render, hscan]
    refine ⟨?_, ?_, ?_, ?_⟩
    · simp [Scan.flush, hpatterns, Seg.piece]
    · simp
    · simp [h.dateformat, dateFormats]
    · simp
  | percent =>
    rw [Seg.render, List.foldl_cons, h.step_percent]
    apply Scanned.escape
    simp [Scan.step, Seg.piece, dateFormats]
  | item c =>
    rw [Seg.render, List.foldl_cons, h.step_percent]
    apply Scanned.escape
    simp [Scan.step, Seg.piece, dateFormats, hok.2]
  | date fmt =>
    cases fmt with
    | none =>
      rw [Seg.render, List.foldl_cons, h.step_percent]
      apply Scanned.escape
      simp [Scan.step, Seg.piece, dateFormats]
    | some fmt =>
      rw [Seg.render, List.foldl_cons, h.step_percent]
      apply Scanned.escape
      have hopen : Scan.step (Scan.step ⟨segs.map Seg.piece, [], (dateFormats segs).flatten, .letter⟩ 0x64) 0x7b =
          ⟨segs.map Seg.piece ++ [.letter 0x64], [], (dateFormats segs).flatten, .braces⟩ := rfl
      rw [List.foldl_cons, List.foldl_cons, hopen, List.foldl_append, scan_format _ _ _ hok]
      simp [Scan.step, Seg.piece, dateFormats]

theorem scanned_render {tail : Tail} (h : WellFormed segs tail) :
    Scanned segs ((segs.flatMap Seg.render).foldl Scan.step Scan.start) := by
  obtain ⟨hok, hchain, -⟩ := h
  induction segs using List.reverseRecOn with
  | nil => exact ⟨rfl, fun h => absurd rfl h, rfl, rfl⟩
  | append_singleton segs seg ih =>
    obtain ⟨hinit, -, hlast⟩ := List.isChain_append.mp hchain
    rw [List.flatMap_append, List.foldl_append]
    have hrest := ih (fun seg hseg => hok seg (List.mem_append_left _ hseg)) hinit
    have hseg := hrest.concat (hok seg (by simp)) fun last h => hlast last h seg rfl
    simpa using hseg

/-- What the scan of a whole pattern comes to. -/
def scannedOutcome (segs : List Seg) : Tail → Except LogFormatter.Init (List Piece × Text)
  | .unclosed _ => .error .error
  | .percent => .ok (segs.map Seg.piece, (dateFormats segs).flatten)
  | .none =>
    if segs.getLast? = some (.date none) then .error .beyond
    else .ok (segs.map Seg.piece, (dateFormats segs).flatten)

theorem outcome_render {tail : Tail} (h : WellFormed segs tail) :
    ((render segs tail).foldl Scan.step Scan.start).outcome = scannedOutcome segs tail := by
  have hscanned := scanned_render h
  rw [render, List.foldl_append]
  generalize (segs.flatMap Seg.render).foldl Scan.step Scan.start = s at hscanned ⊢
  cases tail with
  | none =>
    rw [Tail.render, List.foldl_nil, Scan.outcome, hscanned.place, scannedOutcome]
    by_cases hlast : segs.getLast? = some (.date none)
    · rw [if_pos hlast, if_pos hlast]
    · rw [if_neg hlast, if_neg hlast, ← hscanned.patterns, ← hscanned.dateformat]
  | percent =>
    rw [Tail.render, List.foldl_cons, hscanned.step_percent, List.foldl_nil]
    rfl
  | unclosed fmt =>
    have hopen : Scan.step (Scan.step ⟨segs.map Seg.piece, [], (dateFormats segs).flatten, .letter⟩ 0x64) 0x7b =
        ⟨segs.map Seg.piece ++ [.letter 0x64], [], (dateFormats segs).flatten, .braces⟩ := rfl
    rw [Tail.render, List.foldl_cons, hscanned.step_percent, List.foldl_cons, List.foldl_cons, hopen,
      scan_format _ _ _ (h.tail fmt rfl)]
    rfl

end

/-! ## The items -/

/-- The letters of the comment on `LogFormatter`, with what they print. -/
def documented : List (UInt8 × FormatItem) :=
  [(0x6d, .message), (0x70, .level), (0x72, .elapse), (0x63, .logName), (0x74, .threadId), (0x6e, .newLine),
    (0x66, .filename), (0x6c, .line), (0x54, .tab), (0x46, .fiberId), (0x4e, .threadName)]

/-- What a segment stands for. -/
def Seg.meaning : Seg → Option FormatItem
  | .text s => some (.string s)
  | .percent => some (.string [0x25])
  | .date none => some (.dateTime defaultDateFormat)
  | .date (some fmt) => some (dateTimeFormatItem fmt)
  | .item c => documented.lookup c

/-- `p` is a pattern, of these segments. -/
structure Pattern (p : Text) (segs : List Seg) : Prop where
  wellFormed : WellFormed segs .none
  render : render segs .none = p
  known : ∀ seg ∈ segs, seg.meaning.isSome = true

/-- `init` stays within the string, accepts `p` if it is a pattern, and makes the items it stands for. -/
structure ParsedRight (p : Text) : Prop where
  inside : LogFormatter.initIndexed p ≠ .beyond
  accepted : (∃ items, LogFormatter.initIndexed p = .ok items) ↔ ∃ segs, Pattern p segs
  items : ∀ segs items, Pattern p segs → LogFormatter.initIndexed p = .ok items →
    segs.map Seg.meaning = items.map some

/-- At most one date has a format, and no other date stands beside it unless it is the default one. -/
def OneFormat (formats : List Text) : Prop :=
  (∀ fmt ∈ formats, fmt = []) ∨ formats.length = 1 ∨ formats.filter (· ≠ []) = [defaultDateFormat]

/-- What the scan makes of a segment, given all the formats. -/
def Seg.scanned (formats : List Text) (seg : Seg) : Option FormatItem := seg.piece.made formats.flatten

section
variable {segs : List Seg}

theorem initIndexed_render {tail : Tail} (h : WellFormed segs tail) :
    LogFormatter.initIndexed (render segs tail) = secondPass (scannedOutcome segs tail) := by
  rw [initIndexed_eq, outcome_render h]

theorem secondPass_pieces (items : List FormatItem) :
    secondPass (.ok (segs.map Seg.piece, (dateFormats segs).flatten)) = .ok items ↔
      segs.map (Seg.scanned (dateFormats segs)) = items.map some := by
  have hmap : (segs.map Seg.piece).map (Piece.made (dateFormats segs).flatten) =
      segs.map (Seg.scanned (dateFormats segs)) := by
    rw [List.map_map]
    rfl
  rw [← hmap, ← mapM_eq_some_iff, secondPass]
  split
  · rename_i made hmade
    simp [hmade]
  · rename_i hmade
    simp [hmade]

theorem secondPass_pieces_ne_beyond :
    secondPass (.ok (segs.map Seg.piece, (dateFormats segs).flatten)) ≠ .beyond := by
  rw [secondPass]
  split <;> simp

/-- The table has the documented letters, with what they print. -/
theorem formatItem_eq (c : UInt8) : formatItem c = documented.lookup c := by
  revert c
  apply forall_byte
  decide +kernel

/-- What the second pass does not know. -/
theorem scanned_eq_none_iff {seg : Seg} (hok : seg.Ok) (formats : List Text) :
    seg.scanned formats = none ↔ seg = .percent ∨ seg.meaning = none := by
  cases seg with
  | text s => simp [Seg.scanned, Seg.piece, Piece.made, Seg.meaning]
  | percent =>
    have hpercent : formatItem 0x25 = none := by decide
    simp [Seg.scanned, Seg.piece, Piece.made, hpercent]
  | date fmt => cases fmt <;> simp [Seg.scanned, Seg.piece, Piece.made, Seg.meaning]
  | item c => simp [Seg.scanned, Seg.piece, Piece.made, Seg.meaning, hok.2, formatItem_eq]

/-- Where it makes of a segment what that stands for. -/
theorem scanned_eq_meaning_iff {seg : Seg} (hok : seg.Ok) (hne : seg ≠ .percent) (formats : List Text) :
    seg.scanned formats = seg.meaning ↔
      ∀ fmt, seg = .date fmt → dateTimeFormatItem (fmt.getD []) = dateTimeFormatItem formats.flatten := by
  cases seg with
  | text s => simp [Seg.scanned, Seg.piece, Piece.made, Seg.meaning]
  | percent => exact absurd rfl hne
  | date fmt =>
    have hmeaning : Seg.meaning (.date fmt) = some (dateTimeFormatItem (fmt.getD [])) := by
      cases fmt <;> rfl
    rw [hmeaning]
    simp [Seg.scanned, Seg.piece, Piece.made, eq_comm]
  | item c => simp [Seg.scanned, Seg.piece, Piece.made, Seg.meaning, hok.2, formatItem_eq]

theorem dateTimeFormatItem_inj (f g : Text) :
    dateTimeFormatItem f = dateTimeFormatItem g ↔
      (if f = [] then defaultDateFormat else f) = if g = [] then defaultDateFormat else g := by
  simp [dateTimeFormatItem]

/-- The formats that are not empty, each of which is all of them together, are one. -/
theorem eq_singleton_of_flatten {formats : List Text} {all : Text} (hall : all ≠ [])
    (hflatten : formats.flatten = all) (h : ∀ fmt ∈ formats, fmt = all) : formats = [all] := by
  have hrep := List.eq_replicate_iff.mpr ⟨rfl, h⟩
  have hlen : formats.length * all.length = all.length := by
    have hlength := congrArg List.length hflatten
    rw [hrep, List.length_flatten, List.map_replicate, List.sum_replicate_nat] at hlength
    simpa using hlength
  have hpos := List.length_pos_iff.mpr hall
  have hone : formats.length = 1 := by
    by_contra hne
    rcases Nat.lt_or_ge formats.length 1 with hlt | hge
    · have hzero : formats.length = 0 := by omega
      rw [hzero] at hlen
      omega
    · have htwo := Nat.mul_le_mul_right all.length (show 2 ≤ formats.length by omega)
      omega
  rw [hrep, hone]
  rfl

/-- When every date gets the format it should have. -/
theorem oneFormat_iff (formats : List Text) :
    (∀ fmt ∈ formats, dateTimeFormatItem fmt = dateTimeFormatItem formats.flatten) ↔ OneFormat formats := by
  have hfilter : (formats.filter fun fmt => decide (fmt ≠ [])).flatten = formats.flatten := List.flatten_filter_ne_nil
  constructor
  · intro h
    by_cases hempty : ∀ fmt ∈ formats, fmt = []
    · exact Or.inl hempty
    · right
      have hall : formats.flatten ≠ [] := fun heq => hempty (List.flatten_eq_nil_iff.mp heq)
      have hsame : ∀ fmt ∈ formats, fmt ≠ [] → fmt = formats.flatten := by
        intro fmt hfmt hne
        have hitem := (dateTimeFormatItem_inj _ _).mp (h fmt hfmt)
        rwa [if_neg hne, if_neg hall] at hitem
      have hone := eq_singleton_of_flatten hall hfilter fun fmt hfmt => by
        obtain ⟨hmem, hne⟩ := List.mem_filter.mp hfmt
        exact hsame fmt hmem (of_decide_eq_true hne)
      by_cases hplain : [] ∈ formats
      · -- a plain date stands beside it
        have hdefault := (dateTimeFormatItem_inj _ _).mp (h [] hplain)
        rw [if_pos rfl, if_neg hall] at hdefault
        right
        rw [hdefault]
        exact hone
      · left
        have hself : (formats.filter fun fmt => decide (fmt ≠ [])) = formats :=
          List.filter_eq_self.mpr fun fmt hfmt => decide_eq_true fun heq => hplain (heq ▸ hfmt)
        rw [hself] at hone
        rw [hone]
        rfl
  · rintro (hempty | hone | hdefault) fmt hfmt
    · rw [hempty fmt hfmt, List.flatten_eq_nil_iff.mpr hempty]
    · obtain ⟨f, rfl⟩ := List.length_eq_one_iff.mp hone
      rw [List.mem_singleton.mp hfmt]
      simp
    · have hall : formats.flatten = defaultDateFormat := by
        rw [← hfilter]
        exact (congrArg List.flatten hdefault).trans (by simp)
      rw [hall, dateTimeFormatItem_inj]
      by_cases hne : fmt = []
      · simp [hne]
      · have hmem : fmt ∈ [defaultDateFormat] := hdefault ▸ List.mem_filter.mpr ⟨hfmt, decide_eq_true hne⟩
        rw [List.mem_singleton.mp hmem]

end

/-- The patterns that come through: not with `%d` at the end, and as patterns with no `%%` and one date
format; what is no pattern only for a `%` at the end must have another fault. -/
def ComesThrough (segs : List Seg) : Tail → Prop
  | .unclosed _ => True
  | .percent => ∃ seg ∈ segs, seg = .percent ∨ seg.meaning = none
  | .none => segs.getLast? ≠ some (.date none) ∧
      ((∀ seg ∈ segs, seg.meaning.isSome = true) → .percent ∉ segs ∧ OneFormat (dateFormats segs))

/-! ## The patterns that come through -/

section
variable {segs : List Seg} {tail : Tail}

/-- A pattern has its segments and no others. -/
theorem pattern_iff (h : WellFormed segs tail) (segs' : List Seg) :
    Pattern (render segs tail) segs' ↔
      tail = .none ∧ segs' = segs ∧ ∀ seg ∈ segs, seg.meaning.isSome = true := by
  constructor
  · rintro ⟨hwf, hrender, hknown⟩
    have hparse := parse_render h
    rw [← hrender, parse_render hwf] at hparse
    cases hparse
    exact ⟨rfl, rfl, hknown⟩
  · rintro ⟨rfl, rfl, hknown⟩
    exact ⟨h, rfl, hknown⟩

/-- Which segments the second pass takes. -/
theorem taken_iff (h : WellFormed segs tail) :
    (∃ items, secondPass (.ok (segs.map Seg.piece, (dateFormats segs).flatten)) = .ok items) ↔
      .percent ∉ segs ∧ ∀ seg ∈ segs, seg.meaning.isSome = true := by
  simp only [secondPass_pieces, exists_map_some_iff]
  constructor
  · intro hall
    constructor
    · intro hpercent
      exact hall _ hpercent ((scanned_eq_none_iff (h.ok _ hpercent) _).mpr (Or.inl rfl))
    · intro seg hseg
      rw [Option.isSome_iff_ne_none]
      exact fun hnone => hall seg hseg ((scanned_eq_none_iff (h.ok seg hseg) _).mpr (Or.inr hnone))
  · rintro ⟨hpercent, hknown⟩ seg hseg hnone
    rcases (scanned_eq_none_iff (h.ok seg hseg) _).mp hnone with rfl | hmeaning
    · exact hpercent hseg
    · exact Option.isSome_iff_ne_none.mp (hknown seg hseg) hmeaning

/-- What is taken comes out as it should exactly with one date format. -/
theorem meant_iff (h : WellFormed segs tail) (hpercent : .percent ∉ segs) :
    segs.map (Seg.scanned (dateFormats segs)) = segs.map Seg.meaning ↔ OneFormat (dateFormats segs) := by
  have hseg : ∀ seg ∈ segs, (seg.scanned (dateFormats segs) = seg.meaning ↔ ∀ fmt, seg = .date fmt →
      dateTimeFormatItem (fmt.getD []) = dateTimeFormatItem (dateFormats segs).flatten) := by
    intro seg hseg
    exact scanned_eq_meaning_iff (h.ok seg hseg) (fun heq => hpercent (heq ▸ hseg)) _
  rw [List.map_inj_left, ← oneFormat_iff]
  constructor
  · intro hall fmt hfmt
    obtain ⟨seg, hmem, hdate⟩ := List.mem_filterMap.mp hfmt
    cases seg with
    | date f =>
      cases hdate
      exact (hseg _ hmem).mp (hall _ hmem) f rfl
    | _ => cases hdate
  · intro hall seg hmem
    refine (hseg seg hmem).mpr ?_
    rintro fmt rfl
    exact hall _ (List.mem_filterMap.mpr ⟨_, hmem, rfl⟩)

/-- In front of a `%` at the end, what comes through is what the second pass does not take. -/
theorem comesThrough_percent_iff :
    ComesThrough segs .percent ↔ ¬ (.percent ∉ segs ∧ ∀ seg ∈ segs, seg.meaning.isSome = true) := by
  show (∃ seg ∈ segs, seg = .percent ∨ seg.meaning = none) ↔ _
  rw [← not_iff_not]
  push Not
  constructor
  · intro hall
    refine ⟨fun hp => (hall _ hp).1 rfl, fun seg hseg => Option.isSome_iff_ne_none.mpr (hall seg hseg).2⟩
  · rintro ⟨hp, hknown⟩ seg hseg
    exact ⟨fun heq => hp (heq ▸ hseg), Option.isSome_iff_ne_none.mp (hknown seg hseg)⟩

theorem parsedRight_render (h : WellFormed segs tail) :
    ParsedRight (render segs tail) ↔ ComesThrough segs tail := by
  have hinit := initIndexed_render h
  have hpattern := pattern_iff h
  cases tail with
  | unclosed s =>
    rw [scannedOutcome, secondPass] at hinit
    refine iff_of_true ⟨?_, ?_, ?_⟩ trivial
    · simp [hinit]
    · simp [hinit, hpattern]
    · intro segs' items hp
      exact absurd ((hpattern segs').mp hp).1 (by simp)
  | percent =>
    rw [scannedOutcome] at hinit
    have htaken := taken_iff h
    rw [← hinit] at htaken
    have hnone : ¬ ∃ segs', Pattern (render segs .percent) segs' := by
      rintro ⟨segs', hp⟩
      exact absurd ((hpattern segs').mp hp).1 (by simp)
    rw [comesThrough_percent_iff, ← htaken]
    constructor
    · intro hright haccepts
      exact hnone (hright.accepted.mp haccepts)
    · intro hrejects
      refine ⟨?_, iff_of_false hrejects hnone, fun segs' items hp => absurd ⟨segs', hp⟩ hnone⟩
      rw [hinit]
      exact secondPass_pieces_ne_beyond
  | none =>
    by_cases hlast : segs.getLast? = some (.date none)
    · -- a plain date at the end
      rw [scannedOutcome, if_pos hlast, secondPass] at hinit
      exact iff_of_false (fun hright => hright.inside hinit) fun hthrough => hthrough.1 hlast
    · rw [scannedOutcome, if_neg hlast] at hinit
      have htaken := taken_iff h
      rw [← hinit] at htaken
      have hexists : (∃ segs', Pattern (render segs .none) segs') ↔ ∀ seg ∈ segs, seg.meaning.isSome = true := by
        simp [hpattern]
      have hitems : ∀ items, LogFormatter.initIndexed (render segs .none) = .ok items ↔
          segs.map (Seg.scanned (dateFormats segs)) = items.map some := by
        intro items
        rw [hinit, secondPass_pieces]
      constructor
      · intro hright
        refine ⟨hlast, ?_⟩
        intro hknown
        obtain ⟨items, haccepts⟩ := hright.accepted.mpr (hexists.mpr hknown)
        have hpercent := (htaken.mp ⟨items, haccepts⟩).1
        refine ⟨hpercent, (meant_iff h hpercent).mp ?_⟩
        rw [hright.items segs items ((hpattern segs).mpr ⟨rfl, rfl, hknown⟩) haccepts]
        exact (hitems items).mp haccepts
      · rintro ⟨-, hthrough⟩
        refine ⟨?_, ?_, ?_⟩
        · rw [hinit]
          exact secondPass_pieces_ne_beyond
        · rw [htaken, hexists]
          exact ⟨fun h => h.2, fun hknown => ⟨(hthrough hknown).1, hknown⟩⟩
        · intro segs' items hp haccepts
          obtain ⟨-, rfl, hknown⟩ := (hpattern segs').mp hp
          obtain ⟨hpercent, hone⟩ := hthrough hknown
          rw [← (meant_iff h hpercent).mpr hone]
          exact (hitems items).mp haccepts

end

/-- **The patterns that are parsed right**: `init` stays within the string, accepts exactly the
patterns and makes their items, if and only if the pattern comes through. -/
theorem patterns_parsed_iff (p : Text) : ParsedRight p ↔ ComesThrough (parse p).1 (parse p).2 := by
  obtain ⟨hrender, hwf⟩ := parse_spec p
  have hiff := parsedRight_render hwf
  rwa [hrender] at hiff

/-- `%d` reads behind the string, `%%` is refused, two dates share what is put between their braces, and
a `%` at the end is overlooked. -/
theorem patterns_misparsed :
    LogFormatter.initIndexed (text "%d") = .beyond ∧ LogFormatter.initIndexed (text "%%") = .error ∧
      LogFormatter.initIndexed (text "%d\x7ba\x7d%d\x7bb\x7d") =
        .ok [.dateTime (text "ab"), .dateTime (text "ab")] ∧
      LogFormatter.initIndexed (text "m%") = .ok [.string (text "m")] ∧ ¬ ∀ p, ParsedRight p := by
  have hpercent : LogFormatter.initIndexed (text "%%") = .error := by
    rw [initIndexed_eq]
    decide
  refine ⟨?_, hpercent, ?_, ?_, ?_⟩
  · rw [initIndexed_eq]
    decide
  · rw [initIndexed_eq]
    decide
  · rw [initIndexed_eq]
    decide
  · intro h
    have hpattern : Pattern (text "%%") [.percent] := ⟨⟨by simp [Seg.Ok], by simp, by simp⟩, by decide, by simp [Seg.meaning]⟩
    obtain ⟨items, haccepts⟩ := (h (text "%%")).accepted.mpr ⟨_, hpattern⟩
    cases hpercent.symm.trans haccepts

end Sylar.Log
