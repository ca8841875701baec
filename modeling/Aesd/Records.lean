import Mathlib.Tactic

/-! Records of a stream that arrives in chunks. A chunk that `closes` ends the record it
belongs to; what follows the last closing chunk is the rest. -/

namespace Records

variable {α : Type*} (closes : List α → Bool)

structure Stream (α : Type*) where
  records : List (List α)
  rest : List α

def Stream.empty : Stream α := ⟨[], []⟩

def Stream.feed (stream : Stream α) (chunk : List α) : Stream α :=
  if closes chunk then ⟨stream.records ++ [stream.rest ++ chunk], []⟩
  else ⟨stream.records, stream.rest ++ chunk⟩

def collectFrom (stream : Stream α) (chunks : List (List α)) : Stream α :=
  chunks.foldl (Stream.feed closes) stream

def collect (chunks : List (List α)) : Stream α := collectFrom closes Stream.empty chunks

@[simp] theorem collectFrom_nil (stream : Stream α) : collectFrom closes stream [] = stream := rfl

@[simp] theorem collectFrom_cons (stream : Stream α) (chunk : List α) (chunks : List (List α)) :
    collectFrom closes stream (chunk :: chunks) =
      collectFrom closes (stream.feed closes chunk) chunks := rfl

theorem collectFrom_append (stream : Stream α) (first second : List (List α)) :
    collectFrom closes stream (first ++ second) =
      collectFrom closes (collectFrom closes stream first) second :=
  List.foldl_append

theorem collect_append (first second : List (List α)) :
    collect closes (first ++ second) = collectFrom closes (collect closes first) second :=
  collectFrom_append closes _ first second

theorem collect_concat (chunks : List (List α)) (chunk : List α) :
    collect closes (chunks ++ [chunk]) = (collect closes chunks).feed closes chunk :=
  collect_append closes chunks [chunk]

theorem collect_induction {motive : List (List α) → Stream α → Prop}
    (start : motive [] Stream.empty)
    (closing : ∀ chunks chunk stream, motive chunks stream → closes chunk = true →
      motive (chunks ++ [chunk]) ⟨stream.records ++ [stream.rest ++ chunk], []⟩)
    (continuing : ∀ chunks chunk stream, motive chunks stream → closes chunk = false →
      motive (chunks ++ [chunk]) ⟨stream.records, stream.rest ++ chunk⟩)
    (chunks : List (List α)) : motive chunks (collect closes chunks) := by
  induction chunks using List.reverseRecOn with
  | nil => exact start
  | append_singleton chunks chunk ih =>
      rw [collect_concat, Stream.feed]
      split
      next ended => exact closing chunks chunk _ ih ended
      next unended => exact continuing chunks chunk _ ih (by simpa using unended)

theorem collect_flatten (chunks : List (List α)) :
    (collect closes chunks).records.flatten ++ (collect closes chunks).rest = chunks.flatten := by
  induction chunks using collect_induction closes with
  | start => rfl
  | closing chunks chunk stream ih _ => simp [← ih]
  | continuing chunks chunk stream ih _ => simp [← ih]

theorem collect_length (chunks : List (List α)) :
    (collect closes chunks).records.length = chunks.countP closes := by
  induction chunks using collect_induction closes with
  | start => rfl
  | closing chunks chunk stream ih ended => simp [ih, ended]
  | continuing chunks chunk stream ih unended => simp [ih, unended]

theorem collect_records_nonempty {chunks : List (List α)} (nonempty : ∀ chunk ∈ chunks, chunk ≠ []) :
    ∀ record ∈ (collect closes chunks).records, record ≠ [] := by
  induction chunks using collect_induction closes with
  | start => simp [Stream.empty]
  | closing chunks chunk stream ih _ =>
      intro record member
      simp only [List.mem_append, List.mem_singleton] at member nonempty
      rcases member with old | rfl
      · exact ih (fun chunk inside => nonempty chunk (Or.inl inside)) record old
      · simp [nonempty chunk (Or.inr rfl)]
  | continuing chunks chunk stream ih _ =>
      exact ih (fun chunk inside => nonempty chunk (by simp [inside]))

theorem collect_of_all_closing {chunks : List (List α)}
    (closing : ∀ chunk ∈ chunks, closes chunk = true) : collect closes chunks = ⟨chunks, []⟩ := by
  induction chunks using List.reverseRecOn with
  | nil => rfl
  | append_singleton chunks chunk ih =>
      rw [collect_concat, ih (fun chunk inside => closing chunk (by simp [inside])), Stream.feed,
        closing chunk (by simp)]
      rfl

theorem collectFrom_unended (stream : Stream α) {chunks : List (List α)}
    (unended : ∀ chunk ∈ chunks, closes chunk = false) :
    collectFrom closes stream chunks = ⟨stream.records, stream.rest ++ chunks.flatten⟩ := by
  induction chunks generalizing stream with
  | nil => simp
  | cons chunk chunks ih =>
      have fed : stream.feed closes chunk = ⟨stream.records, stream.rest ++ chunk⟩ := by
        simp [Stream.feed, unended chunk List.mem_cons_self]
      rw [collectFrom_cons, fed, ih _ fun later member => unended later (List.mem_cons_of_mem _ member),
        List.flatten_cons, List.append_assoc]

/-- Each item brings one record, in chunks of which the last one closes. -/
theorem collect_flatMap_eq {β : Type*} {chunksOf : β → List (List α)} {recordOf : β → List α}
    {items : List β}
    (cut : ∀ item ∈ items, ∃ init last, chunksOf item = init ++ [last] ∧
      init.flatten ++ last = recordOf item ∧ (∀ chunk ∈ init, closes chunk = false) ∧
      closes last = true) :
    collect closes (items.flatMap chunksOf) = ⟨items.map recordOf, []⟩ := by
  induction items using List.reverseRecOn with
  | nil => rfl
  | append_singleton items item ih =>
      obtain ⟨init, last, chunks, record, unended, ended⟩ :=
        cut item (List.mem_append_right _ (List.mem_singleton_self _))
      rw [List.flatMap_append, List.flatMap_singleton, collect_append,
        ih fun other member => cut other (List.mem_append_left _ member), chunks, collectFrom_append,
        collectFrom_unended closes _ unended, collectFrom_cons, collectFrom_nil, Stream.feed,
        if_pos ended, List.nil_append, record, List.map_append, List.map_singleton]

theorem countP_flatMap_le {β : Type*} {chunksOf : β → List (List α)} {items : List β}
    (single : ∀ item ∈ items, (chunksOf item).countP closes ≤ 1) :
    (items.flatMap chunksOf).countP closes ≤ items.length := by
  induction items with
  | nil => exact Nat.le_of_eq List.countP_nil
  | cons first items ih =>
      have one := single first List.mem_cons_self
      have rest := ih fun item member => single item (List.mem_cons_of_mem _ member)
      rw [List.flatMap_cons, List.countP_append, List.length_cons]
      omega

theorem collect_records_eq_nil_iff (chunks : List (List α)) :
    (collect closes chunks).records = [] ↔ ∀ chunk ∈ chunks, ¬ closes chunk = true := by
  rw [← List.length_eq_zero_iff, collect_length, List.countP_eq_zero]

/-- When each item brings one closing chunk at most and there is a record for each item, each
item brings one. -/
theorem closes_of_collect_length {β : Type*} {chunksOf : β → List (List α)} {items : List β}
    (single : ∀ item ∈ items, (chunksOf item).countP closes ≤ 1)
    (full : (collect closes (items.flatMap chunksOf)).records.length = items.length) :
    ∀ item ∈ items, ∃ chunk ∈ chunksOf item, closes chunk = true := by
  rw [collect_length] at full
  induction items with
  | nil => simp
  | cons first items ih =>
      have singles : ∀ item ∈ items, (chunksOf item).countP closes ≤ 1 := fun item member =>
        single item (List.mem_cons_of_mem _ member)
      have here := single first List.mem_cons_self
      have later := countP_flatMap_le closes singles
      rw [List.flatMap_cons, List.countP_append, List.length_cons] at full
      intro item member
      rcases List.mem_cons.mp member with rfl | rest
      · exact List.countP_pos_iff.mp (by omega)
      · exact ih singles (by omega) item rest

theorem collectFrom_eq (stream : Stream α) (chunks : List (List α)) :
    collectFrom closes stream chunks =
      match (collect closes chunks).records with
      | [] => ⟨stream.records, stream.rest ++ (collect closes chunks).rest⟩
      | first :: later =>
          ⟨stream.records ++ (stream.rest ++ first) :: later, (collect closes chunks).rest⟩ := by
  induction chunks using List.reverseRecOn with
  | nil => simp [collect, Stream.empty]
  | append_singleton chunks chunk ih =>
      rw [collectFrom_append, collect_concat, ih]
      cases found : (collect closes chunks).records with
      | nil => by_cases ended : closes chunk <;> simp [Stream.feed, ended, found]
      | cons first later => by_cases ended : closes chunk <;> simp [Stream.feed, ended, found]

/-- Extra chunks that end no record are invisible exactly when no record follows them. -/
theorem collect_insert_iff (first second : List (List α)) {extra : List (List α)}
    (nonempty : extra.flatten ≠ []) (unended : ∀ chunk ∈ extra, closes chunk = false) :
    (collect closes (first ++ (extra ++ second))).records =
        (collect closes (first ++ second)).records ↔
      (collect closes second).records = [] := by
  rw [collect_append, collect_append, collectFrom_append, collectFrom_unended closes _ unended,
    collectFrom_eq, collectFrom_eq]
  cases (collect closes second).records with
  | nil => simp
  | cons record later => simpa using nonempty

/-! The positions at which records end. -/

/-- The positions at which the closing chunks end, when the first chunk starts at `position`. -/
def endsFrom (position : Nat) : List (List α) → List Nat
  | [] => []
  | chunk :: chunks =>
      if closes chunk then (position + chunk.length) :: endsFrom (position + chunk.length) chunks
      else endsFrom (position + chunk.length) chunks

theorem endsFrom_append (first second : List (List α)) (position : Nat) :
    endsFrom closes position (first ++ second) =
      endsFrom closes position first ++ endsFrom closes (position + first.flatten.length) second := by
  induction first generalizing position with
  | nil => simp [endsFrom]
  | cons chunk chunks ih =>
      have total : position + (chunk :: chunks).flatten.length =
          position + chunk.length + chunks.flatten.length := by
        rw [List.flatten_cons, List.length_append, Nat.add_assoc]
      rw [List.cons_append, endsFrom, endsFrom, ih, total]
      split
      · rfl
      · rfl

theorem ends_eq_scanl (chunks : List (List α)) :
    0 :: endsFrom closes 0 chunks =
      ((collect closes chunks).records.map List.length).scanl (· + ·) 0 := by
  induction chunks using List.reverseRecOn with
  | nil => rfl
  | append_singleton chunks chunk ih =>
      have total := congrArg List.length (collect_flatten closes chunks)
      rw [List.length_append, List.length_flatten] at total
      rw [endsFrom_append, ← List.cons_append, ih, collect_concat, Stream.feed]
      by_cases ended : closes chunk
      · simp [endsFrom, ended, List.scanl_append, ← total, List.sum_eq_foldl_nat, Nat.add_assoc]
      · simp [endsFrom, ended]

end Records
