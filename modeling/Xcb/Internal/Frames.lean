import Mathlib.Data.Nat.Notation
import Mathlib.Data.List.Basic

/-!
# Self-delimiting frames

A stream of symbols is cut into frames by a rule that reads the length of a frame off its first
symbols. Frames that announce their own length, whatever follows them, are found again.

## Main results

* `Frames.split_flatten` — the frames of a concatenation are the frames concatenated
* `Frames.flatten_of_split` — cutting loses nothing
-/

namespace Frames

variable {α : Type*} {size : List α → ℕ}

/-- Cut off one frame after the other, at most `fuel` of them; `none` when the stream ends inside a
frame or a frame announces no length. -/
def split (size : List α → ℕ) : ℕ → List α → Option (List (List α))
  | _, [] => some []
  | 0, _ :: _ => none
  | fuel + 1, stream@(_ :: _) =>
    if 0 < size stream ∧ size stream ≤ stream.length then
      (split size fuel (stream.drop (size stream))).map (stream.take (size stream) :: ·)
    else none

/-- A frame that is not empty and announces its own length. -/
def Delimits (size : List α → ℕ) (frame : List α) : Prop :=
  0 < frame.length ∧ ∀ rest, size (frame ++ rest) = frame.length

/-- **Splitting.** -/
theorem split_flatten {frames : List (List α)} (h : ∀ frame ∈ frames, Delimits size frame)
    {fuel : ℕ} (hfuel : frames.length ≤ fuel) : split size fuel frames.flatten = some frames := by
  induction frames generalizing fuel with
  | nil => cases fuel <;> rfl
  | cons frame frames ih =>
    obtain ⟨hpos, hsize⟩ := h frame List.mem_cons_self
    obtain ⟨fuel, rfl⟩ : ∃ n, fuel = n + 1 := ⟨fuel - 1, by simp at hfuel; omega⟩
    have hrest : split size fuel frames.flatten = some frames :=
      ih (fun f hf => h f (List.mem_cons_of_mem _ hf)) (by simpa using hfuel)
    have hstream := hsize frames.flatten
    rw [List.flatten_cons]
    obtain ⟨a, as, hcons⟩ := List.exists_cons_of_ne_nil
      (show frame ++ frames.flatten ≠ [] by simp [List.ne_nil_of_length_pos hpos])
    rw [hcons] at hstream ⊢
    rw [split, hstream, if_pos ⟨hpos, by rw [← hcons]; simp⟩, ← hcons, List.drop_left, hrest,
      List.take_left]
    rfl

/-- Every frame is at least one symbol long, so the length of the stream is fuel enough. -/
theorem length_le_of_delimits {frames : List (List α)} (h : ∀ frame ∈ frames, Delimits size frame) :
    frames.length ≤ frames.flatten.length := by
  induction frames with
  | nil => exact Nat.le_refl 0
  | cons frame frames ih =>
    have hpos := (h frame List.mem_cons_self).1
    have hrest := ih fun f hf => h f (List.mem_cons_of_mem _ hf)
    simp only [List.length_cons, List.flatten_cons, List.length_append]
    omega

/-- The frames that were cut are the stream. -/
theorem flatten_of_split {fuel : ℕ} {stream : List α} {frames : List (List α)}
    (h : split size fuel stream = some frames) : frames.flatten = stream := by
  induction fuel generalizing stream frames with
  | zero =>
    cases stream with
    | nil =>
      cases h
      rfl
    | cons a as => cases h
  | succ fuel ih =>
    cases stream with
    | nil =>
      cases h
      rfl
    | cons a as =>
      simp only [split] at h
      split at h
      · obtain ⟨rest, hrest, rfl⟩ := Option.map_eq_some_iff.mp h
        rw [List.flatten_cons, ih hrest, List.take_append_drop]
      · cases h

end Frames
