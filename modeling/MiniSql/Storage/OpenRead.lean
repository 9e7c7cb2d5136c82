import MiniSql.Storage.Codec

/-!
# Where the reads of a file end

A read of `read_csv_rows` ends behind a newline or where it fills the buffer. The
bytes behind the last such place are an open read: whatever is appended to the
file goes on there.
-/

namespace MiniSql.Storage

/-- The bytes behind the last newline. -/
def lastLine (file : Bytes) : Bytes := (file.reverse.takeWhile (· != newline)).reverse

/-- What a last line without a newline leaves for a read that does not fill the
buffer. -/
def openRead (file : Bytes) : Bytes :=
  (lastLine file).drop ((lastLine file).length / lineSize * lineSize)

/-- Reads that start in front of these bytes end behind them. -/
def EndsRead (file : Bytes) : Prop :=
  ∀ rest, fileLines (file ++ rest) = fileLines file ++ fileLines rest

theorem EndsLine.endsRead {file : Bytes} (h : EndsLine file) : EndsRead file :=
  fileLines_append h

theorem EndsRead.append {file more : Bytes} (hfile : EndsRead file) (hmore : EndsRead more) :
    EndsRead (file ++ more) := by
  intro rest
  rw [List.append_assoc, hfile, hmore, hfile, List.append_assoc]

theorem fileLines_full {block : Bytes} (hfree : newline ∉ block) (hsize : block.length = lineSize)
    (rest : Bytes) : fileLines (block ++ rest) = block :: fileLines rest := by
  have hne : block ++ rest ≠ [] := by
    rintro h
    rw [(List.append_eq_nil_iff.mp h).1] at hsize
    cases hsize
  rw [fileLines_cons hne, ← hsize, fgets_full hfree]

theorem endsRead_full {block : Bytes} (hfree : newline ∉ block) (hsize : block.length = lineSize) :
    EndsRead block := by
  intro rest
  have hblock : fileLines block = [block] := by
    simpa [fileLines] using fileLines_full hfree hsize []
  rw [fileLines_full hfree hsize, hblock, List.singleton_append]

theorem endsRead_blocks {block : Bytes} (hfree : newline ∉ block) {count : Nat}
    (hsize : block.length = count * lineSize) : EndsRead block := by
  induction count generalizing block with
  | zero =>
    obtain rfl := List.eq_nil_of_length_eq_zero (hsize.trans (Nat.zero_mul _))
    exact EndsLine.endsRead (.inl rfl)
  | succ count ih =>
    rw [Nat.succ_mul] at hsize
    rw [← List.take_append_drop lineSize block] at hfree ⊢
    rw [List.mem_append, not_or] at hfree
    apply EndsRead.append
    · apply endsRead_full hfree.1
      rw [List.length_take, hsize]
      omega
    · apply ih hfree.2
      rw [List.length_drop, hsize]
      omega

theorem lastLine_split (file : Bytes) : ∃ lines, file = lines ++ lastLine file ∧ EndsLine lines := by
  refine ⟨(file.reverse.dropWhile (· != newline)).reverse, ?_, ?_⟩
  · rw [lastLine, ← List.reverse_append, List.takeWhile_append_dropWhile, List.reverse_reverse]
  · cases hdrop : file.reverse.dropWhile (· != newline) with
    | nil => exact .inl rfl
    | cons c rest =>
      have hc := List.head?_dropWhile_not (· != newline) file.reverse
      rw [hdrop] at hc
      obtain rfl : c = newline := by simpa using hc
      exact .inr ⟨rest.reverse, by simp⟩

theorem newline_notMem_lastLine (file : Bytes) : newline ∉ lastLine file := by
  intro h
  exact absurd (List.mem_takeWhile_imp (List.mem_reverse.mp h)) (by decide)

theorem newline_notMem_openRead (file : Bytes) : newline ∉ openRead file :=
  fun h => newline_notMem_lastLine file (List.mem_of_mem_drop h)

theorem openRead_length (file : Bytes) : (openRead file).length < lineSize := by
  unfold openRead lineSize
  rw [List.length_drop]
  omega

theorem openRead_split (file : Bytes) : ∃ closed, file = closed ++ openRead file ∧ EndsRead closed := by
  obtain ⟨lines, hfile, hends⟩ := lastLine_split file
  have hfree := newline_notMem_lastLine file
  refine ⟨lines ++ (lastLine file).take ((lastLine file).length / lineSize * lineSize), ?_, ?_⟩
  · rw [List.append_assoc, openRead, List.take_append_drop]
    exact hfile
  · apply hends.endsRead.append
    have hsize : ((lastLine file).take ((lastLine file).length / lineSize * lineSize)).length =
        (lastLine file).length / lineSize * lineSize := by
      rw [List.length_take]
      exact Nat.min_eq_left (Nat.div_mul_le_self _ _)
    exact endsRead_blocks (fun h => hfree (List.mem_of_mem_take h)) hsize

end MiniSql.Storage
