import Mathlib

/-!
# Copying in chunks

A loop that reads a chunk and writes it until a read brings less than a chunk. The source ends where
it ends or cannot be read further; the destination takes what it has room for and nothing more, and
the loop does not notice.

## Main results

* `ChunkedCopy.copy_eq`: what has been written and counted in the end.
-/

namespace ChunkedCopy

variable {α : Type*} (chunk room : ℕ)

/-- The loop, with what has been written and the number of elements that have been read. -/
def copy (src written : List α) (copied : ℕ) : List α × ℕ :=
  let buf := src.take chunk
  if buf = [] then (written, copied)
  else
    let written := (written ++ buf).take room
    let copied := copied + buf.length
    -- after a short read the next one finds the stream at its end
    if buf.length < chunk then (written, copied)
    else copy (src.drop chunk) written copied
termination_by src.length
decreasing_by
  rename_i hne _
  rw [List.length_drop]
  have hsrc : 0 < (src.take chunk).length := List.length_pos_iff.mpr hne
  rw [List.length_take] at hsrc
  omega

variable {chunk room}

/-- What has been written with a chunk is cut where all of it would be cut. -/
theorem take_take_append (written buf rest : List α) :
    ((written ++ buf).take room ++ rest).take room = (written ++ (buf ++ rest)).take room := by
  have htake (l : List α) : (l ++ rest).take room = l.take room ++ rest.take (room - l.length) :=
    List.take_append
  rw [← List.append_assoc, htake, htake, List.take_take, Nat.min_self, List.length_take]
  rcases Nat.le_total (written ++ buf).length room with hle | hle
  · rw [Nat.min_eq_right hle]
  · rw [Nat.min_eq_left hle, Nat.sub_self, Nat.sub_eq_zero_of_le hle]

/-- **Everything that can be read is counted,** and written as far as there is room. -/
theorem copy_eq (hchunk : 0 < chunk) (src written : List α) (copied : ℕ)
    (hroom : written.length ≤ room) :
    copy chunk room src written copied = ((written ++ src).take room, copied + src.length) := by
  induction src, written, copied using copy.induct chunk room with
  | case1 src written copied buf hbuf =>
      obtain rfl : src = [] := (List.take_eq_nil_iff.mp hbuf).resolve_left (Nat.ne_of_gt hchunk)
      rw [copy, if_pos hbuf, List.append_nil, List.take_of_length_le hroom]
      rfl
  | case2 src written copied buf hbuf hshort =>
      have hlen : src.length ≤ chunk := by
        rw [List.length_take] at hshort
        omega
      have hall : src.take chunk = src := List.take_of_length_le hlen
      rw [copy, if_neg hbuf, if_pos hshort, hall]
  | case3 src written copied buf hbuf written' copied' hfull ih =>
      have hroom' : written'.length ≤ room := List.length_take_le _ _
      have hcount : copied' + (src.drop chunk).length = copied + src.length := by
        dsimp only [copied', buf]
        rw [Nat.add_assoc, ← List.length_append, List.take_append_drop]
      rw [copy, if_neg hbuf, if_neg hfull, ih hroom', hcount]
      dsimp only [written', buf]
      rw [take_take_append, List.take_append_drop]

end ChunkedCopy
