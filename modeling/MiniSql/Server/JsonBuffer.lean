import MiniSql.JsonQuote

/-!
# The buffer of a JSON payload

`json_buffer_reserve` and the functions over it, with `size_t` of 64 bits: every sum and
product is reduced, and beside it is noted whether it has wrapped around. Memory is
asked for by its size; what is given is a block of that size or nothing. Stores go
through `Block.store`, so that a call with a result has stored nothing outside the
buffer. The pointer to the buffer is that of a local variable.
-/

namespace MiniSql.Server

structure JsonBuffer where
  data : Option Bytes
  length : Nat
  capacity : Nat
  deriving DecidableEq, Repr

/-- `JsonBuffer json = {0}`. -/
def JsonBuffer.empty : JsonBuffer := ⟨none, 0, 0⟩

/-- What a call comes to: the buffer, 1 or the reason for 0, and whether a sum or product
has wrapped around. -/
structure JsonOutcome where
  buffer : JsonBuffer
  result : Except SqlError Unit
  wrapped : Bool

def sizeMax : Nat := 2 ^ 64 - 1

/-- The loop over `next_capacity`; nothing if it takes more than `fuel` rounds. -/
def doubleCapacity (needed : Nat) : Nat → Nat → Option (Nat × Bool)
  | 0, _ => none
  | fuel + 1, nextCapacity =>
    if nextCapacity < needed then
      if nextCapacity > sizeMax / 2 then some (needed, false)
      else
        (doubleCapacity needed fuel (nextCapacity * 2 % 2 ^ 64)).map fun (capacity, wrapped) =>
          (capacity, decide (2 ^ 64 ≤ nextCapacity * 2) || wrapped)
    else some (nextCapacity, false)

def payloadTooLarge : SqlError := sqlSetError [ascii "JSON payload is too large"]

def expandFailed : SqlError := sqlSetError [ascii "failed to expand JSON payload buffer"]

def jsonBufferReserve (fuel : Nat) (realloc : Block.Allocator UInt8) (buffer : JsonBuffer)
    (additional : Nat) : Option JsonOutcome :=
  if additional > (2 ^ 64 + (sizeMax - buffer.length) - 1) % 2 ^ 64 then
    some ⟨buffer, .error payloadTooLarge, false⟩
  else
    let needed := (buffer.length + additional + 1) % 2 ^ 64
    let wrapped := decide (2 ^ 64 ≤ buffer.length + additional + 1)
    if needed ≤ buffer.capacity then some ⟨buffer, .ok (), wrapped⟩
    else do
      let (nextCapacity, doubled) ←
        doubleCapacity needed fuel (if buffer.capacity = 0 then 128 else buffer.capacity)
      match realloc.get nextCapacity with
      | none => return ⟨buffer, .error expandFailed, wrapped || doubled⟩
      | some fresh =>
        let data := Block.resize (buffer.data.getD []) fresh
        return ⟨{ buffer with data := some data, capacity := nextCapacity }, .ok (), wrapped || doubled⟩

/-- The text is a C string or `NULL`. -/
def jsonBufferAppendRaw (fuel : Nat) (realloc : Block.Allocator UInt8) (buffer : JsonBuffer)
    (text : Option Bytes) : Option JsonOutcome :=
  match text with
  | none => some ⟨buffer, .ok (), false⟩
  | some text => do
    let reserved ← jsonBufferReserve fuel realloc buffer (cString text).length
    match reserved.result with
    | .error e => return ⟨reserved.buffer, .error e, reserved.wrapped⟩
    | .ok _ =>
      let data ← reserved.buffer.data
      let data ← Block.storeAll data reserved.buffer.length (cString text)
      let length := (reserved.buffer.length + (cString text).length) % 2 ^ 64
      let data ← Block.store data length 0
      return ⟨{ reserved.buffer with data := some data, length := length }, .ok (),
        reserved.wrapped || decide (2 ^ 64 ≤ reserved.buffer.length + (cString text).length)⟩

/-- `sql_json_quote` takes `NULL` as the empty string. -/
def jsonBufferAppendQuoted (fuel : Nat) (malloc realloc : Block.Allocator UInt8) (buffer : JsonBuffer)
    (text : Option Bytes) : Option JsonOutcome := do
  match ← sqlJsonQuoteInto malloc.get (text.getD []) with
  | .error e => return ⟨buffer, .error e, false⟩
  | .ok quoted => jsonBufferAppendRaw fuel realloc buffer (some quoted)

/-- The payload, and the buffer that is left. -/
def jsonBufferFinalize (malloc : Block.Allocator UInt8) (buffer : JsonBuffer) : Option Bytes × JsonBuffer :=
  match buffer.data with
  -- `sql_strdup` of the empty string
  | none => ((malloc.get 1).map fun _ => [0], .empty)
  | some data => (some data, .empty)

/-! ## Sequences of calls -/

inductive AppendCall
  | raw (text : Option Bytes)
  | quoted (text : Option Bytes)

/-- A call with what its allocations will give. -/
structure Append where
  call : AppendCall
  malloc : Block.Allocator UInt8
  realloc : Block.Allocator UInt8

def Append.run (fuel : Nat) (append : Append) (buffer : JsonBuffer) : Option JsonOutcome :=
  match append.call with
  | .raw text => jsonBufferAppendRaw fuel append.realloc buffer text
  | .quoted text => jsonBufferAppendQuoted fuel append.malloc append.realloc buffer text

/-- The text that a call appends. -/
def AppendCall.text : AppendCall → Bytes
  | .raw text => cString (text.getD [])
  | .quoted text => sqlJsonQuote (cString (text.getD []))

/-- One call after the other, whatever the earlier ones have returned. -/
def runAppends (fuel : Nat) : List Append → JsonBuffer →
    Option (JsonBuffer × List (Except SqlError Unit) × Bool)
  | [], buffer => some (buffer, [], false)
  | append :: appends, buffer => do
    let outcome ← append.run fuel buffer
    let (buffer, results, wrapped) ← runAppends fuel appends outcome.buffer
    return (buffer, outcome.result :: results, outcome.wrapped || wrapped)

/-- The texts of the calls that returned 1. -/
def appended : List Append → List (Except SqlError Unit) → Bytes
  | append :: appends, .ok _ :: results => append.call.text ++ appended appends results
  | _ :: appends, .error _ :: results => appended appends results
  | _, _ => []

/-! ## What the buffer holds -/

/-- There is memory of `capacity` bytes that begins with the text. -/
structure JsonBuffer.Holds (buffer : JsonBuffer) (text : Bytes) : Prop where
  data : ∃ data, buffer.data = some data ∧ Block.Holds buffer.capacity text data
  capacity : buffer.capacity < 2 ^ 64

/-- The buffer is empty, or holds the text with its terminator. -/
def JsonBuffer.Contains (buffer : JsonBuffer) (text : Bytes) : Prop :=
  buffer.length = text.length ∧
    (buffer = .empty ∨ buffer.Holds (text ++ [0]))

section

variable {buffer : JsonBuffer} {text : Bytes}

theorem contains_empty : JsonBuffer.empty.Contains [] := ⟨rfl, .inl rfl⟩

theorem JsonBuffer.Holds.le (h : buffer.Holds text) : text.length ≤ buffer.capacity := by
  obtain ⟨data, -, hbegins, hsize⟩ := h.data
  exact hsize ▸ hbegins.length_le

end

/-! ## Reserving -/

/-- A round that doubles nothing leaves the loop with enough. -/
theorem doubleCapacity_leaves {needed nextCapacity : Nat} (hneeded : needed < 2 ^ 64)
    (hnext : nextCapacity < 2 ^ 64) (hleaves : nextCapacity < needed → nextCapacity > sizeMax / 2) :
    ∃ capacity, (∀ fuel, 0 < fuel → doubleCapacity needed fuel nextCapacity = some (capacity, false)) ∧
      needed ≤ capacity ∧ capacity < 2 ^ 64 := by
  by_cases hmore : nextCapacity < needed
  · refine ⟨needed, fun fuel hfuel => ?_, Nat.le_refl _, hneeded⟩
    obtain ⟨fuel, rfl⟩ := Nat.exists_eq_add_one_of_ne_zero (Nat.ne_zero_of_lt hfuel)
    rw [doubleCapacity, if_pos hmore, if_pos (hleaves hmore)]
  · refine ⟨nextCapacity, fun fuel hfuel => ?_, Nat.le_of_not_lt hmore, hnext⟩
    obtain ⟨fuel, rfl⟩ := Nat.exists_eq_add_one_of_ne_zero (Nat.ne_zero_of_lt hfuel)
    rw [doubleCapacity, if_neg hmore]

/-- The loop takes at most one round more than it takes to reach half of a `size_t` by
doubling. No product wraps around. -/
theorem doubleCapacity_spec {needed : Nat} (hneeded : needed < 2 ^ 64) (rounds : Nat) {nextCapacity : Nat}
    (hnext : nextCapacity < 2 ^ 64) (hrounds : 2 ^ 63 ≤ nextCapacity * 2 ^ rounds) :
    ∃ capacity, (∀ fuel, rounds < fuel → doubleCapacity needed fuel nextCapacity = some (capacity, false)) ∧
      needed ≤ capacity ∧ capacity < 2 ^ 64 := by
  induction rounds generalizing nextCapacity with
  | zero =>
    apply doubleCapacity_leaves hneeded hnext
    intro _
    simp only [sizeMax]
    omega
  | succ rounds ih =>
    by_cases hleaves : nextCapacity < needed → nextCapacity > sizeMax / 2
    · obtain ⟨capacity, hloop, henough⟩ := doubleCapacity_leaves hneeded hnext hleaves
      exact ⟨capacity, fun fuel hfuel => hloop fuel (Nat.zero_lt_of_lt hfuel), henough⟩
    · obtain ⟨hmore, hhalf⟩ := Classical.not_imp.mp hleaves
      have hfits : nextCapacity * 2 < 2 ^ 64 := by
        simp only [sizeMax] at hhalf
        omega
      have hpow : nextCapacity * 2 ^ (rounds + 1) = nextCapacity * 2 * 2 ^ rounds := by ring
      obtain ⟨capacity, hloop, henough⟩ := ih hfits (hpow ▸ hrounds)
      refine ⟨capacity, fun fuel hfuel => ?_, henough⟩
      obtain ⟨fuel, rfl⟩ := Nat.exists_eq_add_one_of_ne_zero (Nat.ne_zero_of_lt hfuel)
      rw [doubleCapacity, if_pos hmore, if_neg hhalf, Nat.mod_eq_of_lt hfits,
        hloop fuel (Nat.lt_of_succ_lt_succ hfuel), Option.map_some,
        decide_eq_false (Nat.not_le_of_lt hfits)]
      rfl

/-- What reserving comes to: room for so many bytes more and a terminator, or the buffer
as it was. -/
structure JsonBuffer.Reserves (buffer : JsonBuffer) (text : Bytes) (additional : Nat)
    (outcome : JsonOutcome) : Prop where
  arithmetic : outcome.wrapped = false
  room : outcome.result = .ok () → outcome.buffer.length = text.length ∧
    text.length + additional + 1 ≤ outcome.buffer.capacity ∧ outcome.buffer.Holds text
  unchanged : ∀ e, outcome.result = .error e → outcome.buffer = buffer

section

variable {buffer : JsonBuffer} {text : Bytes}

/-- With a text in it, or empty, the length is below the limits of a `size_t`. -/
theorem JsonBuffer.Contains.length_lt (h : buffer.Contains text) : buffer.length < sizeMax := by
  obtain ⟨hlength, rfl | hholds⟩ := h
  · decide
  · have hle := hholds.le
    have hcapacity := hholds.capacity
    rw [List.length_append, List.length_singleton] at hle
    simp only [sizeMax]
    omega

theorem JsonBuffer.Contains.capacity_lt (h : buffer.Contains text) : buffer.capacity < 2 ^ 64 := by
  obtain ⟨-, rfl | hholds⟩ := h
  · decide
  · exact hholds.capacity

/-- The memory begins with the text, if there is any. -/
theorem JsonBuffer.Contains.data (h : buffer.Contains text) :
    Block.Holds buffer.capacity text (buffer.data.getD []) := by
  obtain ⟨hlength, rfl | hholds⟩ := h
  · obtain rfl : text = [] := List.length_eq_zero_iff.mp hlength.symm
    exact Block.holds_nil []
  · obtain ⟨data, hdata, hblock⟩ := hholds.data
    rw [hdata]
    exact hblock.shorter

theorem JsonBuffer.Contains.holds (h : buffer.Contains text) (hcapacity : 0 < buffer.capacity) :
    buffer.Holds text := by
  obtain ⟨-, rfl | hholds⟩ := h
  · cases hcapacity
  · obtain ⟨data, hdata, hblock⟩ := hholds.data
    exact ⟨⟨data, hdata, hblock.shorter⟩, hholds.capacity⟩

theorem jsonBufferReserve_spec (h : buffer.Contains text) (realloc : Block.Allocator UInt8)
    (additional : Nat) :
    ∃ outcome, (∀ fuel, 64 ≤ fuel → jsonBufferReserve fuel realloc buffer additional = some outcome) ∧
      buffer.Reserves text additional outcome := by
  have hlength := h.length_lt
  have hguard : (2 ^ 64 + (sizeMax - buffer.length) - 1) % 2 ^ 64 = sizeMax - buffer.length - 1 := by
    simp only [sizeMax] at hlength ⊢
    omega
  simp only [jsonBufferReserve, hguard]
  by_cases hlarge : additional > sizeMax - buffer.length - 1
  · refine ⟨⟨buffer, .error payloadTooLarge, false⟩, fun fuel _ => if_pos hlarge, rfl, nofun, ?_⟩
    intro e _
    rfl
  have hneeded : buffer.length + additional + 1 < 2 ^ 64 := by
    simp only [sizeMax] at hlength hlarge
    omega
  simp only [if_neg hlarge, Nat.mod_eq_of_lt hneeded, decide_eq_false (Nat.not_le_of_lt hneeded),
    Bool.false_or]
  by_cases hroom : buffer.length + additional + 1 ≤ buffer.capacity
  · refine ⟨⟨buffer, .ok (), false⟩, fun fuel _ => if_pos hroom, rfl, fun _ => ?_, nofun⟩
    exact ⟨h.1, h.1 ▸ hroom, h.holds (by omega)⟩
  simp only [if_neg hroom]
  obtain ⟨capacity, hloop, henough, hcapacity⟩ : ∃ capacity, (∀ fuel, 63 < fuel →
      doubleCapacity (buffer.length + additional + 1) fuel
        (if buffer.capacity = 0 then 128 else buffer.capacity) = some (capacity, false)) ∧
      buffer.length + additional + 1 ≤ capacity ∧ capacity < 2 ^ 64 := by
    have hcapacity := h.capacity_lt
    apply doubleCapacity_spec hneeded
    · split <;> omega
    · split <;> omega
  cases hgot : realloc.get capacity with
  | none =>
    refine ⟨⟨buffer, .error expandFailed, false⟩, fun fuel hfuel => ?_, rfl, nofun, fun _ _ => rfl⟩
    simp only [hloop fuel hfuel, hgot, bind, Option.bind_some, pure]
  | some fresh =>
    have hfresh := realloc.size hgot
    refine ⟨⟨⟨some (Block.resize (buffer.data.getD []) fresh), buffer.length, capacity⟩, .ok (), false⟩,
      fun fuel hfuel => ?_, rfl, fun _ => ⟨h.1, h.1 ▸ henough, ⟨_, rfl, ?_⟩, hcapacity⟩, nofun⟩
    · simp only [hloop fuel hfuel, hgot, bind, Option.bind_some, pure]
    · have hblock := h.data.resize fresh (by rw [hfresh, ← h.1]; omega)
      rwa [hfresh] at hblock

/-! ## Appending -/

/-- What an append comes to: the text with more behind it, or the buffer as it was. -/
structure JsonBuffer.Appends (buffer : JsonBuffer) (text more : Bytes) (outcome : JsonOutcome) : Prop where
  arithmetic : outcome.wrapped = false
  done : outcome.result = .ok () → outcome.buffer.Contains (text ++ more)
  unchanged : ∀ e, outcome.result = .error e → outcome.buffer = buffer

theorem jsonBufferAppendRaw_spec (h : buffer.Contains text) (realloc : Block.Allocator UInt8)
    (more : Option Bytes) :
    ∃ outcome, (∀ fuel, 64 ≤ fuel → jsonBufferAppendRaw fuel realloc buffer more = some outcome) ∧
      buffer.Appends text (cString (more.getD [])) outcome := by
  cases more with
  | none =>
    refine ⟨⟨buffer, .ok (), false⟩, fun _ _ => rfl, rfl, fun _ => ?_, nofun⟩
    have hnone : text ++ cString [] = text := List.append_nil text
    exact hnone.symm ▸ h
  | some more =>
    obtain ⟨reserved, hreserve, harithmetic, hroom, hunchanged⟩ :=
      jsonBufferReserve_spec h realloc (cString more).length
    rcases reserved with ⟨after, e | _, wrapped⟩
    · refine ⟨⟨after, .error e, wrapped⟩, fun fuel hfuel => ?_, harithmetic, nofun, hunchanged⟩
      simp only [jsonBufferAppendRaw, hreserve fuel hfuel, bind, Option.bind_some, pure]
    · obtain ⟨hlength, hcapacity, ⟨data, hdata, hblock⟩, hlimit⟩ := hroom rfl
      dsimp only at hlength hcapacity hdata hblock hlimit harithmetic
      obtain ⟨filled, hfill, hfilled⟩ := hblock.storeAll (cString more) (by omega)
      obtain ⟨ended, hend, hended⟩ := hfilled.store (by rw [List.length_append]; omega) 0
      have hsum : after.length + (cString more).length < 2 ^ 64 := by omega
      rw [List.length_append, ← hlength] at hend
      rw [← hlength] at hfill
      refine ⟨⟨⟨some ended, after.length + (cString more).length, after.capacity⟩, .ok (), false⟩,
        fun fuel hfuel => ?_, rfl, fun _ => ⟨?_, .inr ⟨⟨ended, rfl, hended⟩, hlimit⟩⟩, nofun⟩
      · simp only [jsonBufferAppendRaw, hreserve fuel hfuel, hdata, hfill, Nat.mod_eq_of_lt hsum, hend, bind,
          Option.bind_some, pure, harithmetic, decide_eq_false (Nat.not_le_of_lt hsum), Bool.or_false]
      · simp only [List.length_append, hlength, Option.getD_some]

theorem sqlJsonQuoteInto_cString (malloc : Nat → Option Bytes) (src : Bytes) :
    sqlJsonQuoteInto malloc (cString src) = sqlJsonQuoteInto malloc src := by
  rw [sqlJsonQuoteInto, sqlJsonQuoteInto, cString_eq_self (cString_nulFree src)]

/-- Quoting fails, or gives the quoted text. -/
theorem sqlJsonQuoteInto_cases (malloc : Block.Allocator UInt8) (src : Bytes) :
    (∃ e, sqlJsonQuoteInto malloc.get src = some (.error e)) ∨
    ∃ quoted, sqlJsonQuoteInto malloc.get src = some (.ok quoted) ∧
      cString quoted = sqlJsonQuote (cString src) := by
  rw [← sqlJsonQuoteInto_cString]
  have hfree := cString_nulFree src
  generalize cString src = text at hfree ⊢
  by_cases hlarge : text.length > (2 ^ 64 - 1 - 3) / 6
  · left
    simp only [sqlJsonQuoteInto, cString_eq_self hfree, if_pos hlarge]
    exact ⟨_, rfl⟩
  · cases hgot : malloc.get (text.length * 6 + 3) with
    | none =>
      left
      simp only [sqlJsonQuoteInto, cString_eq_self hfree, if_neg hlarge, hgot]
      exact ⟨_, rfl⟩
    | some block =>
      obtain ⟨quoted, hrun, ⟨rest, hholds⟩, -⟩ :=
        sqlJsonQuoteInto_holds hfree (by omega) hgot (malloc.size hgot)
      refine .inr ⟨quoted, hrun, ?_⟩
      rw [← hholds, List.append_assoc, List.singleton_append]
      exact cString_terminated (sqlJsonQuote_nulFree text) rest

theorem jsonBufferAppendQuoted_spec (h : buffer.Contains text) (malloc realloc : Block.Allocator UInt8)
    (more : Option Bytes) :
    ∃ outcome, (∀ fuel, 64 ≤ fuel →
        jsonBufferAppendQuoted fuel malloc realloc buffer more = some outcome) ∧
      buffer.Appends text (sqlJsonQuote (cString (more.getD []))) outcome := by
  rcases sqlJsonQuoteInto_cases malloc (more.getD []) with ⟨e, hquote⟩ | ⟨quoted, hquote, hquoted⟩
  · refine ⟨⟨buffer, .error e, false⟩, fun fuel _ => ?_, rfl, nofun, fun _ _ => rfl⟩
    simp only [jsonBufferAppendQuoted, hquote, bind, Option.bind_some, pure]
  · obtain ⟨outcome, hraw, happends⟩ := jsonBufferAppendRaw_spec h realloc (some quoted)
    refine ⟨outcome, fun fuel hfuel => ?_, ?_⟩
    · simp only [jsonBufferAppendQuoted, hquote, bind, Option.bind_some, hraw fuel hfuel]
    · rw [← hquoted]
      exact happends

theorem Append.run_spec (h : buffer.Contains text) (append : Append) :
    ∃ outcome, (∀ fuel, 64 ≤ fuel → append.run fuel buffer = some outcome) ∧
      buffer.Appends text append.call.text outcome := by
  obtain ⟨call, malloc, realloc⟩ := append
  cases call with
  | raw more => exact jsonBufferAppendRaw_spec h realloc more
  | quoted more => exact jsonBufferAppendQuoted_spec h malloc realloc more

/-- A sequence of calls, from any buffer. -/
theorem runAppends_spec (h : buffer.Contains text) (appends : List Append) :
    ∃ after results,
      (∀ fuel, 64 ≤ fuel → runAppends fuel appends buffer = some (after, results, false)) ∧
      results.length = appends.length ∧ after.Contains (text ++ appended appends results) := by
  induction appends generalizing buffer text with
  | nil => exact ⟨buffer, [], fun _ _ => rfl, rfl, by simpa [appended] using h⟩
  | cons append appends ih =>
    obtain ⟨⟨next, result, wrapped⟩, hrun, harithmetic, hdone, hunchanged⟩ := append.run_spec h
    dsimp only at harithmetic hdone hunchanged
    subst harithmetic
    cases result with
    | error e =>
      obtain rfl := hunchanged e rfl
      obtain ⟨after, results, hruns, hlength, hcontains⟩ := ih h
      refine ⟨after, .error e :: results, fun fuel hfuel => ?_, by simp [hlength], hcontains⟩
      simp only [runAppends, hrun fuel hfuel, hruns fuel hfuel, bind, Option.bind_some, pure, Bool.or_false]
    | ok _ =>
      obtain ⟨after, results, hruns, hlength, hcontains⟩ := ih (hdone rfl)
      refine ⟨after, .ok () :: results, fun fuel hfuel => ?_, by simp [hlength], ?_⟩
      · simp only [runAppends, hrun fuel hfuel, hruns fuel hfuel, bind, Option.bind_some, pure, Bool.or_false]
      · rw [List.append_assoc] at hcontains
        exact hcontains

theorem AppendCall.text_nulFree (call : AppendCall) : 0 ∉ call.text := by
  cases call with
  | raw text => exact cString_nulFree _
  | quoted text => exact sqlJsonQuote_nulFree _

theorem appended_nulFree (appends : List Append) (results : List (Except SqlError Unit)) :
    0 ∉ appended appends results := by
  fun_induction appended appends results with
  | case1 append appends _ results ih =>
    rw [List.mem_append, not_or]
    exact ⟨append.call.text_nulFree, ih⟩
  | case2 _ appends _ results ih => exact ih
  | case3 => exact List.not_mem_nil

/-- The payload is the text that the buffer holds. -/
theorem jsonBufferFinalize_payload (h : buffer.Contains text) (hfree : 0 ∉ text)
    (malloc : Block.Allocator UInt8) {payload : Bytes}
    (hpayload : (jsonBufferFinalize malloc buffer).1 = some payload) : cString payload = text := by
  obtain ⟨hlength, rfl | hholds⟩ := h
  · obtain rfl : text = [] := List.length_eq_zero_iff.mp hlength.symm
    obtain ⟨block, -, rfl⟩ := Option.map_eq_some_iff.mp hpayload
    rfl
  · obtain ⟨data, hdata, ⟨rest, rfl⟩, -⟩ := hholds.data
    rw [jsonBufferFinalize, hdata] at hpayload
    obtain rfl := Option.some.inj hpayload
    rw [List.append_assoc, List.singleton_append]
    exact cString_terminated hfree rest

end

/-- **The buffer of a payload.** After every sequence of appends, with any texts and any
allocations: no sum or product has wrapped around and every loop has come to its end
after at most 64 rounds; a buffer with memory has room for its text and a terminator,
and begins with the texts of the calls that returned 1, in their order. Reserving comes
to its end too, without wrapping around; it gives the room that was asked for, or
leaves the buffer as it was. The payload that is made of the buffer is these texts. -/
theorem json_buffer_exact (appends : List Append) :
    ∃ buffer results,
      (∀ fuel, 64 ≤ fuel → runAppends fuel appends .empty = some (buffer, results, false)) ∧
      results.length = appends.length ∧
      buffer.length = (appended appends results).length ∧
      (buffer.data = none → appended appends results = []) ∧
      (∀ data, buffer.data = some data → data.length = buffer.capacity ∧
        buffer.length + 1 ≤ buffer.capacity ∧ buffer.capacity < 2 ^ 64 ∧
        appended appends results ++ [0] <+: data) ∧
      (∀ malloc payload, (jsonBufferFinalize malloc buffer).1 = some payload →
        cString payload = appended appends results) ∧
      ∀ (realloc : Block.Allocator UInt8) (additional : Nat),
        ∃ outcome, (∀ fuel, 64 ≤ fuel → jsonBufferReserve fuel realloc buffer additional = some outcome) ∧
          outcome.wrapped = false ∧
          (outcome.result = .ok () → outcome.buffer.length = buffer.length ∧
            buffer.length + additional + 1 ≤ outcome.buffer.capacity ∧ outcome.buffer.data ≠ none) ∧
          ∀ e, outcome.result = .error e → outcome.buffer = buffer := by
  obtain ⟨buffer, results, hruns, hresults, hcontains⟩ := runAppends_spec contains_empty appends
  rw [List.nil_append] at hcontains
  refine ⟨buffer, results, hruns, hresults, hcontains.1, ?_, ?_, ?_, ?_⟩
  · intro hnone
    obtain ⟨hlength, rfl | hholds⟩ := hcontains
    · exact List.length_eq_zero_iff.mp hlength.symm
    · obtain ⟨data, hdata, -⟩ := hholds.data
      cases hnone.symm.trans hdata
  · intro data hdata
    obtain ⟨hlength, rfl | hholds⟩ := hcontains
    · cases hdata
    · obtain ⟨data', hdata', hbegins, hsize⟩ := hholds.data
      obtain rfl := Option.some.inj (hdata.symm.trans hdata')
      have hle := hholds.le
      rw [List.length_append, List.length_singleton, ← hlength] at hle
      exact ⟨hsize, hle, hholds.capacity, hbegins⟩
  · intro malloc payload hpayload
    exact jsonBufferFinalize_payload hcontains (appended_nulFree appends results) malloc hpayload
  · intro realloc additional
    obtain ⟨outcome, hreserve, harithmetic, hroom, hunchanged⟩ :=
      jsonBufferReserve_spec hcontains realloc additional
    refine ⟨outcome, hreserve, harithmetic, fun hok => ?_, hunchanged⟩
    obtain ⟨hlength, hcapacity, ⟨data, hdata, -⟩, -⟩ := hroom hok
    rw [← hcontains.1] at hlength hcapacity
    exact ⟨hlength, hcapacity, by simp [hdata]⟩

end MiniSql.Server
