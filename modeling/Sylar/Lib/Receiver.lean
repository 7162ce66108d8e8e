import Mathlib.Data.List.Basic
import Mathlib.Data.List.Forall2
import Sylar.Lib.Stream

/- Receiving messages from a stream that arrives in pieces.

   A `Consumer` is given the bytes of a buffer, says how many of them it has taken, and
   may have failed or be finished. `receive` fills the buffer from the stream and calls the
   consumer until either: the loop around an incremental parser. What the consumer has not
   taken stays in the buffer, the next read appends to it.

   `receive_reads` is the rule for it. When the whole message completes the consumer with
   its last byte and not before, and the reads are cut where the consumer can be
   interrupted, the loop returns what one call with the whole message gives, and has taken
   these reads from the stream and no others. `Alignment` says that of several messages in
   a row, and `Alignment.calls` is the rule for them: as many calls return the messages one
   after another. -/
namespace Sylar.Lib

section
variable {ι π : Type}

/-- A read with room for `n`: at most one piece, and of a longer one its first part. -/
def readPiece (n : Nat) : List (List ι) → Option (List ι × List (List ι))
  | [] => none
  | x :: rest =>
    if x.isEmpty ∨ n = 0 then none
    else if x.length ≤ n then some (x, rest)
    else some (x.take n, x.drop n :: rest)

theorem readPiece_fits {x : List ι} {rest : List (List ι)} {n : Nat} (hx : x ≠ []) (hn : x.length ≤ n) :
    readPiece n (x :: rest) = some (x, rest) := by
  have hpos : 0 < x.length := List.length_pos_iff.mpr hx
  have hne : ¬(x.isEmpty ∨ n = 0) := by
    rintro (h | h)
    · exact hx (List.isEmpty_iff.mp h)
    · omega
  rw [readPiece, if_neg hne, if_pos hn]

structure Consumer (ι π : Type) where
  execute : π → List ι → Nat × π
  failed : π → Bool
  finished : π → Bool

namespace Consumer

/-- The loop, with a buffer for `room` and `left` in it: the consumer when it is finished, and
what is left of the stream. -/
def receive (c : Consumer ι π) (room : Nat) : Nat → List (List ι) → π → List ι → Option π × List (List ι)
  | 0, pieces, _, _ => (none, pieces)
  | fuel + 1, pieces, p, left =>
    match readPiece (room - left.length) pieces with
    | none => (none, pieces)
    | some (x, pieces) =>
      let data := left ++ x
      let (taken, p) := c.execute p data
      let left := data.drop taken
      if c.failed p then (none, pieces)
      else if left.length = room then (none, pieces)
      else if c.finished p then (some p, pieces)
      else receive c room fuel pieces p left

variable (c : Consumer ι π) (p : π)

/-- After `pre` and before `post` the consumer can be interrupted: it has taken all of `pre`, and goes
on with what follows as if both had come at once. -/
structure Interruptible (pre post : List ι) : Prop where
  takes : (c.execute p pre).1 = pre.length
  running : c.failed (c.execute p pre).2 = false
  resumes : ∀ y z, y ++ z = post → y ≠ [] → ∃ unread q,
    c.execute (c.execute p pre).2 y = (y.length - unread, q) ∧
      c.execute p (pre ++ y) = ((pre ++ y).length - unread, q)

/-- `e` completes the consumer, with its last element and not before. -/
structure CompletedBy (e : List ι) : Prop where
  nonempty : e ≠ []
  takes : (c.execute p e).1 = e.length
  running : c.failed (c.execute p e).2 = false
  finished : c.finished (c.execute p e).2 = true
  unfinished : ∀ k, k < e.length → c.finished (c.execute p (e.take k)).2 = false

variable {c p} in
theorem CompletedBy.of_execute {e : List ι} {q : π} (hne : e ≠ []) (hexecute : c.execute p e = (e.length, q))
    (hrunning : c.failed q = false) (hfinished : c.finished q = true)
    (hunfinished : ∀ k, k < e.length → c.finished (c.execute p (e.take k)).2 = false) : c.CompletedBy p e where
  nonempty := hne
  takes := by rw [hexecute]
  running := by rw [hexecute]; exact hrunning
  finished := by rw [hexecute]; exact hfinished
  unfinished := hunfinished

/-- The consumer when it has been given `pre`. -/
def after (pre : List ι) : π := if pre.isEmpty then p else (c.execute p pre).2

theorem after_ne_nil {pre : List ι} (hpre : pre ≠ []) : c.after p pre = (c.execute p pre).2 := by
  rw [after, if_neg (by simpa using hpre)]

variable {c p}

/-- A read that the consumer takes with what it had before is taken by itself. -/
theorem execute_after {pre y z : List ι} (hpre : pre ≠ [] → c.Interruptible p pre (y ++ z)) (hy : y ≠ [])
    (htakes : (c.execute p (pre ++ y)).1 = (pre ++ y).length) :
    c.execute (c.after p pre) y = (y.length, c.after p (pre ++ y)) := by
  rw [after_ne_nil c p (List.append_ne_nil_of_right_ne_nil pre hy)]
  by_cases hnil : pre = []
  · subst hnil
    have hstart : c.after p [] = p := rfl
    rw [hstart, List.nil_append]
    exact Prod.ext htakes rfl
  · obtain ⟨unread, q, hnext, hwhole⟩ := (hpre hnil).resumes y z rfl hy
    rw [after_ne_nil c p hnil, hnext, hwhole]
    have hpos : 0 < y.length := List.length_pos_iff.mpr hy
    have hall : unread = 0 := by
      rw [hwhole, List.length_append] at htakes
      dsimp only at htakes
      omega
    rw [hall, Nat.sub_zero]

/-- One read of the loop, of which nothing stays in the buffer. -/
theorem receive_read {room fuel : Nat} {q q' : π} {y : List ι} {rest : List (List ι)} (hy : y ≠ [])
    (hfit : y.length ≤ room) (hexecute : c.execute q y = (y.length, q')) (hrunning : c.failed q' = false) :
    c.receive room (fuel + 1) (y :: rest) q [] =
      if c.finished q' then (some q', rest) else c.receive room fuel rest q' [] := by
  have hpos : 0 < y.length := List.length_pos_iff.mpr hy
  have hroom : (y.drop y.length).length ≠ room := by
    rw [List.drop_length, List.length_nil]
    omega
  rw [receive, List.length_nil, Nat.sub_zero, readPiece_fits hy hfit]
  simp only [List.nil_append, hexecute, hrunning, Bool.false_eq_true, if_false, hroom]
  rw [List.drop_length]

/-- The reads of one message, from the middle on. The induction is on the reads still to come;
those before have been taken and have left nothing in the buffer. -/
theorem receive_from {room : Nat} (more : List (List ι)) : ∀ (reads before : List (List ι)) (fuel : Nat),
    reads ≠ [] → reads.length ≤ fuel → (∀ x ∈ before ++ reads, x ≠ []) → (∀ x ∈ reads, x.length ≤ room) →
    Cuts (c.Interruptible p) (before ++ reads) → c.CompletedBy p (before ++ reads).flatten →
    c.receive room fuel (reads ++ more) (c.after p before.flatten) [] =
      (some (c.execute p (before ++ reads).flatten).2, more)
  | [], _, _, h, _, _, _, _, _ => absurd rfl h
  | _ :: _, _, 0, _, hfuel, _, _, _, _ => absurd hfuel (Nat.not_succ_le_zero _)
  | y :: rest, before, fuel + 1, _, hfuel, hne, hfit, hcuts, hdone => by
    have hy : y ≠ [] := hne y (by simp)
    have hyfit : y.length ≤ room := hfit y List.mem_cons_self
    have hcut : before.flatten ≠ [] → c.Interruptible p before.flatten (y ++ rest.flatten) := by
      intro hb
      refine hcuts before (y :: rest) rfl ?_ (List.cons_ne_nil y rest)
      rintro rfl
      exact hb rfl
    have hpre : before.flatten ++ y ≠ [] := List.append_ne_nil_of_right_ne_nil _ hy
    cases rest with
    | nil =>
      -- the last read ends the message
      have hflat : (before ++ [y]).flatten = before.flatten ++ y := by simp
      rw [hflat] at hdone ⊢
      have hnext := execute_after hcut hy hdone.takes
      rw [after_ne_nil c p hpre] at hnext
      rw [List.singleton_append, receive_read hy hyfit hnext hdone.running, if_pos hdone.finished]
    | cons y' rest' =>
      -- there are more to come
      have hflat : (before ++ y :: y' :: rest').flatten = before.flatten ++ y ++ (y' :: rest').flatten := by simp
      have hcut' : c.Interruptible p (before.flatten ++ y) (y' :: rest').flatten := by
        have h := hcuts (before ++ [y]) (y' :: rest') (by simp) (by simp) (List.cons_ne_nil y' rest')
        simpa using h
      have hnext := execute_after hcut hy hcut'.takes
      have hrunning : c.failed (c.after p (before.flatten ++ y)) = false := by
        rw [after_ne_nil c p hpre]
        exact hcut'.running
      have hfin : c.finished (c.after p (before.flatten ++ y)) = false := by
        have hlt : (before.flatten ++ y).length < (before ++ y :: y' :: rest').flatten.length := by
          have hy' : 0 < y'.length := List.length_pos_iff.mpr (hne y' (by simp))
          rw [hflat]
          simp only [List.length_append, List.flatten_cons]
          omega
        have h := hdone.unfinished _ hlt
        rw [hflat, List.take_left' rfl] at h
        rw [after_ne_nil c p hpre]
        exact h
      have hih := receive_from more (y' :: rest') (before ++ [y]) fuel (List.cons_ne_nil y' rest')
        (Nat.le_of_succ_le_succ hfuel) (by simpa using hne) (fun x hx => hfit x (List.mem_cons_of_mem y hx))
        (by simpa using hcuts) (by simpa using hdone)
      rw [List.cons_append, receive_read hy hyfit hnext hrunning, if_neg (by simp [hfin])]
      simpa using hih

/-- The reads of one message: the loop returns what one call with all of it gives, and leaves what
follows on the stream. -/
theorem receive_reads {room fuel : Nat} {reads : List (List ι)} (more : List (List ι)) (hfuel : reads.length ≤ fuel)
    (hne : ∀ x ∈ reads, x ≠ []) (hfit : ∀ x ∈ reads, x.length ≤ room) (hcuts : Cuts (c.Interruptible p) reads)
    (hdone : c.CompletedBy p reads.flatten) :
    c.receive room fuel (reads ++ more) p [] = (some (c.execute p reads.flatten).2, more) := by
  have hreads : reads ≠ [] := by
    rintro rfl
    exact hdone.nonempty rfl
  exact receive_from more reads [] fuel hreads hfuel hne hfit hcuts hdone

/-- Reads that are not empty are no more than what they bring. -/
theorem length_le_flatten : ∀ {xs : List (List ι)}, (∀ x ∈ xs, x ≠ []) → xs.length ≤ xs.flatten.length
  | [], _ => Nat.le_refl 0
  | x :: rest, h => by
    have hx : 0 < x.length := List.length_pos_iff.mpr (h x List.mem_cons_self)
    have hrest := length_le_flatten fun y hy => h y (List.mem_cons_of_mem x hy)
    rw [List.length_cons, List.flatten_cons, List.length_append]
    omega

/-- A read takes something off the stream. -/
theorem readPiece_shrinks {n : Nat} {x : List ι} {pieces rest : List (List ι)}
    (h : readPiece n pieces = some (x, rest)) : rest.flatten.length < pieces.flatten.length := by
  cases pieces with
  | nil => cases h
  | cons y tail =>
    rw [readPiece] at h
    split at h
    · cases h
    · rename_i hne
      rw [not_or, List.isEmpty_iff] at hne
      have hy : 0 < y.length := List.length_pos_iff.mpr hne.1
      split at h
      all_goals
        cases h
        simp only [List.flatten_cons, List.length_append, List.length_drop]
        omega

/-- The rounds are bounded by what there is on the stream. -/
theorem receive_fuel {room : Nat} : ∀ (fuel : Nat) (pieces : List (List ι)) (q : π) (left : List ι),
    pieces.flatten.length < fuel → c.receive room (fuel + 1) pieces q left = c.receive room fuel pieces q left
  | 0, _, _, _, h => absurd h (Nat.not_lt_zero _)
  | fuel + 1, pieces, q, left, h => by
    rw [receive, receive]
    cases hread : readPiece (room - left.length) pieces with
    | none => rfl
    | some found =>
      obtain ⟨x, rest⟩ := found
      have hlt := readPiece_shrinks hread
      dsimp only
      rw [receive_fuel fuel rest _ _ (by omega)]

end Consumer

/-! ## Several messages -/

/-- The reads bring the messages `es` one after another: no read has parts of two of them, and those
of each are cut as `ok` allows. -/
inductive Alignment (ok : List ι → List ι → Prop) : List (List ι) → List (List ι) → Prop where
  | nil : Alignment ok [] []
  | cons {es reads incoming : List (List ι)} : Cuts ok reads → Alignment ok es incoming →
      Alignment ok (reads.flatten :: es) (reads ++ incoming)

variable {ok ok' : List ι → List ι → Prop} {es incoming : List (List ι)}

theorem Alignment.flatten_eq (h : Alignment ok es incoming) : incoming.flatten = es.flatten := by
  induction h with
  | nil => rfl
  | cons _ _ ih => rw [List.flatten_append, List.flatten_cons, ih]

/-- Each message takes a read. -/
theorem Alignment.length_le (h : Alignment ok es incoming) (hes : ∀ x ∈ es, x ≠ []) :
    es.length ≤ incoming.flatten.length := by
  rw [h.flatten_eq]
  exact Consumer.length_le_flatten hes

/-- A message that comes in one read. -/
theorem Alignment.single {e : List ι} (h : Alignment ok es incoming) : Alignment ok (e :: es) (e :: incoming) := by
  have hcut : Cuts ok [e] := cuts_singleton e
  simpa using Alignment.cons hcut h

section
variable {σ ρ : Type} (recv : σ → Option ρ × σ)

/-- `n` calls, one after another. -/
def calls : Nat → σ → List (Option ρ) × σ
  | 0, s => ([], s)
  | n + 1, s =>
    let (r, s) := recv s
    let (rs, s) := calls n s
    (r :: rs, s)

variable {recv}

/-- Aligned reads, none of them empty: a call for each message. `g` makes the receiver of what there is to
come. -/
theorem Alignment.calls {room : Nat} {g : List (List ι) → σ} {carries : List ι → ρ → Prop} {rs : List ρ}
    (h : Alignment ok es incoming)
    (hone : ∀ {reads : List (List ι)} {r : ρ} (more : List (List ι)), (∀ x ∈ reads, x ≠ []) →
      (∀ x ∈ reads, x.length ≤ room) → Cuts ok reads → carries reads.flatten r →
      recv (g (reads ++ more)) = (some r, g more))
    (hcarry : List.Forall₂ carries es rs) (hne : ∀ x ∈ incoming, x ≠ []) (hfit : ∀ x ∈ incoming, x.length ≤ room) :
    Lib.calls recv rs.length (g incoming) = (rs.map some, g []) := by
  induction h generalizing rs with
  | nil =>
    cases hcarry
    rfl
  | @cons es reads incoming hcuts _ ih =>
    cases hcarry with
    | @cons _ r _ rs hr hrs =>
      have hfirst := hone incoming (fun x hx => hne x (List.mem_append_left _ hx))
        (fun x hx => hfit x (List.mem_append_left _ hx)) hcuts hr
      have hothers := ih hrs (fun x hx => hne x (List.mem_append_right _ hx))
        (fun x hx => hfit x (List.mem_append_right _ hx))
      rw [List.length_cons, Lib.calls, hfirst]
      dsimp only
      rw [hothers]
      rfl

end

end

end Sylar.Lib
