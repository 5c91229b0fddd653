import Mathlib.Data.List.DropRight

/-! A stream cut into pieces by runs of separators, item by item. -/

namespace Sniper

structure LineScan (α : Type u) where
  pieces : List (List α)
  /-- What stands after the last separator. -/
  tail : List α
  /-- The last item is a separator. -/
  inRun : Bool

namespace LineScan

variable {α : Type u} (separator : α → Bool)

/-- Only the first separator of a run ends a piece. -/
def next (scan : LineScan α) (item : α) : LineScan α :=
  if separator item = true then
    if scan.inRun = true then scan else { pieces := scan.pieces ++ [scan.tail], tail := [], inRun := true }
  else { scan with tail := scan.tail ++ [item], inRun := false }

def start : LineScan α := ⟨[], [], false⟩

def unterminated (stream : List α) : List α := stream.rtakeWhile fun item => !separator item

variable {separator} {stream rest leftover tail : List α} {pieces : List (List α)} {inRun : Bool} {item : α}

theorem next_of_separator (isSeparator : separator item = true) :
    next separator ⟨pieces, tail, false⟩ item = ⟨pieces ++ [tail], [], true⟩ := by
  unfold next
  rw [if_pos isSeparator, if_neg Bool.false_ne_true]

theorem next_in_run (isSeparator : separator item = true) : next separator ⟨pieces, tail, true⟩ item = ⟨pieces, tail, true⟩ := by
  unfold next
  rw [if_pos isSeparator, if_pos rfl]

theorem next_of_item (isItem : separator item = false) :
    next separator ⟨pieces, tail, inRun⟩ item = ⟨pieces, tail ++ [item], false⟩ := by
  unfold next
  rw [if_neg (Bool.eq_false_iff.mp isItem)]

/-- The pieces that are there already stay in front. -/
theorem pieces_foldl (pieces : List (List α)) (tail : List α) (inRun : Bool) (stream : List α) :
    (stream.foldl (next separator) ⟨pieces, tail, inRun⟩).pieces =
      pieces ++ (stream.foldl (next separator) ⟨[], tail, inRun⟩).pieces := by
  induction stream generalizing pieces tail inRun with
  | nil => exact (List.append_nil pieces).symm
  | cons item rest ih =>
    rw [List.foldl_cons, List.foldl_cons]
    cases isSeparator : separator item with
    | false =>
      rw [next_of_item isSeparator, next_of_item isSeparator]
      exact ih pieces _ false
    | true =>
      cases inRun with
      | false =>
        rw [next_of_separator isSeparator, next_of_separator isSeparator, ih, ih ([] ++ [tail]), List.nil_append,
          List.append_assoc]
      | true =>
        rw [next_in_run isSeparator, next_in_run isSeparator]
        exact ih pieces tail true

theorem foldl_of_items (items : ∀ item ∈ stream, separator item = false) :
    (stream.foldl (next separator) ⟨pieces, tail, inRun⟩) = ⟨pieces, tail ++ stream, inRun && stream.isEmpty⟩ := by
  induction stream generalizing tail inRun with
  | nil => simp
  | cons item rest ih =>
    rw [List.foldl_cons, next_of_item (items item List.mem_cons_self), ih fun later member => items later (List.mem_cons_of_mem _ member)]
    simp

theorem foldl_of_separators (separators : ∀ item ∈ stream, separator item = true) :
    stream.foldl (next separator) ⟨pieces, tail, true⟩ = ⟨pieces, tail, true⟩ := by
  induction stream with
  | nil => rfl
  | cons item rest ih =>
    rw [List.foldl_cons, next_in_run (separators item List.mem_cons_self)]
    exact ih fun later member => separators later (List.mem_cons_of_mem _ member)

/-- A scan that starts with `leftover` gives the same pieces, as long as no separator comes, or as `leftover` is the tail and the
first separator does not continue a run. -/
theorem pieces_eq_iff (closed : inRun = true → tail = []) :
    (stream.foldl (next separator) ⟨[], leftover, false⟩).pieces = (stream.foldl (next separator) ⟨[], tail, inRun⟩).pieces ↔
      ((∃ item ∈ stream, separator item = true) →
        leftover = tail ∧ ¬(inRun = true ∧ stream.head?.any separator = true)) := by
  induction stream generalizing leftover tail inRun with
  | nil => simp
  | cons item rest ih =>
    rw [List.foldl_cons, List.foldl_cons]
    cases isSeparator : separator item with
    | false =>
      have notRun : false = true → tail ++ [item] = [] := fun same => absurd same Bool.false_ne_true
      rw [next_of_item isSeparator, next_of_item isSeparator, ih notRun, List.append_left_inj]
      simp [isSeparator]
    | true =>
      have some : ∃ later ∈ item :: rest, separator later = true := ⟨item, List.mem_cons_self, isSeparator⟩
      rw [next_of_separator isSeparator]
      cases inRun with
      | false =>
        rw [next_of_separator isSeparator, pieces_foldl, pieces_foldl ([] ++ [tail]), List.append_left_inj]
        simp [isSeparator]
      | true =>
        rw [next_in_run isSeparator, closed rfl, pieces_foldl]
        have continues : true = true ∧ (item :: rest).head?.any separator = true := ⟨rfl, isSeparator⟩
        refine iff_of_false (fun same => ?_) fun apart => (apart some).2 continues
        have lengths := congrArg List.length same
        rw [List.length_append] at lengths
        exact absurd lengths (by simp)

theorem unterminated_concat : unterminated separator (stream ++ [item]) =
    if separator item = true then [] else unterminated separator stream ++ [item] := by
  unfold unterminated
  rw [List.rtakeWhile_concat]
  cases separator item <;> rfl

/-- What a scan of the stream has found, and what it has left. -/
structure Scanned (separator : α → Bool) (stream : List α) (scan : LineScan α) : Prop where
  tail : scan.tail = unterminated separator stream
  inRun : scan.inRun = stream.getLast?.any separator
  closed : scan.inRun = true → scan.tail = []
  items : scan.pieces.flatten ++ scan.tail = stream.filter fun item => !separator item

theorem Scanned.next {scan : LineScan α} (scanned : Scanned separator stream scan) (item : α) :
    Scanned separator (stream ++ [item]) (next separator scan item) := by
  obtain ⟨pieces, tail, inRun⟩ := scan
  obtain ⟨isTail, _, closed, items⟩ := scanned
  have last : (stream ++ [item]).getLast?.any separator = separator item := by
    rw [List.getLast?_concat]
    rfl
  cases isSeparator : separator item with
  | false =>
    rw [next_of_item isSeparator]
    constructor
    case tail => rw [unterminated_concat, if_neg (Bool.eq_false_iff.mp isSeparator), ← isTail]
    case inRun => rw [last, isSeparator]
    case closed => exact fun same => absurd same Bool.false_ne_true
    case items =>
      dsimp only at items ⊢
      rw [← List.append_assoc, items, List.filter_append, List.filter_singleton, isSeparator]
      rfl
  | true =>
    have noItem : (stream ++ [item]).filter (fun item => !separator item) = stream.filter fun item => !separator item := by
      rw [List.filter_append, List.filter_singleton, isSeparator]
      exact List.append_nil _
    have ended : unterminated separator (stream ++ [item]) = [] := by rw [unterminated_concat, if_pos isSeparator]
    cases inRun with
    | false =>
      rw [next_of_separator isSeparator]
      refine ⟨ended.symm, last.trans isSeparator |>.symm, fun _ => rfl, ?_⟩
      rw [noItem, ← items, List.flatten_concat, List.append_nil]
    | true =>
      rw [next_in_run isSeparator]
      refine ⟨(closed rfl).trans ended.symm, last.trans isSeparator |>.symm, closed, ?_⟩
      rw [noItem, ← items]

theorem scanned_foldl (stream : List α) : Scanned separator stream (stream.foldl (LineScan.next separator) start) := by
  induction stream using List.reverseRecOn with
  | nil => exact ⟨rfl, rfl, fun _ => rfl, rfl⟩
  | append_singleton stream item ih =>
    rw [List.foldl_concat]
    exact ih.next item

/-! ## Runs of separators -/

theorem unterminated_append_separator (isSeparator : separator item = true) (front back : List α) :
    unterminated separator (front ++ item :: back) = unterminated separator back := by
  induction back using List.reverseRecOn with
  | nil =>
    rw [unterminated_concat, if_pos isSeparator]
    rfl
  | append_singleton back last ih => rw [← List.cons_append, ← List.append_assoc, unterminated_concat, unterminated_concat, ih]

theorem unterminated_of_items (items : ∀ item ∈ stream, separator item = false) : unterminated separator stream = stream := by
  unfold unterminated
  rw [List.rtakeWhile_eq_self_iff]
  intro item member
  rw [items item member]
  rfl

/-- Items, a run of separators, and what does not continue the run: one piece, then the pieces of the rest. -/
theorem pieces_append_run {run : List α} (items : ∀ item ∈ stream, separator item = false)
    (separators : ∀ item ∈ run, separator item = true) (nonempty : run ≠ [])
    (ended : rest.head?.any separator = false) :
    ((stream ++ (run ++ rest)).foldl (next separator) ⟨[], leftover, false⟩).pieces =
      (leftover ++ stream) :: (rest.foldl (next separator) start).pieces := by
  cases run with
  | nil => exact absurd rfl nonempty
  | cons first more =>
    have same : (rest.foldl (next separator) ⟨[], [], false⟩).pieces = (rest.foldl (next separator) ⟨[], [], true⟩).pieces :=
      (pieces_eq_iff fun _ => rfl).mpr fun _ => ⟨rfl, fun both => Bool.false_ne_true (ended.symm.trans both.2)⟩
    rw [List.foldl_append, foldl_of_items items, List.foldl_append, List.foldl_cons, Bool.false_and,
      next_of_separator (separators first List.mem_cons_self),
      foldl_of_separators fun item member => separators item (List.mem_cons_of_mem _ member), pieces_foldl, ← same]
    rfl

end LineScan

end Sniper
