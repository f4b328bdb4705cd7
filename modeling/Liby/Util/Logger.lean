import Liby.Infra.Block
import Liby.Infra.Decimal
import Mathlib.Data.List.DropRight

/-!
# `Logger::log`

A line is put together in an array of 4096 bytes: `snprintf` prints what comes before the message,
`vsnprintf` the message, newlines are taken off the end and one is put back. Both functions return
the length that the whole text has, however much of it they wrote.
-/

namespace Liby

open Infra

/-- A C string: the characters in front of its NUL. -/
structure CString where
  chars : Bytes
  nul : 0 ∉ chars

namespace CString

/-- What `str.data()` is as a C string. -/
def ofString (str : Bytes) : CString where
  chars := str.takeWhile (· ≠ 0)
  nul h := by simpa using List.mem_takeWhile_imp h

end CString

/-- `Logger::LogLevel`. -/
inductive LogLevel where
  | VERBOSE
  | DEBUG
  | INFO
  | WARN
  | ERROR
  | FATAL
  deriving DecidableEq, Repr

/-- `static_cast<int>(level)`. -/
def LogLevel.toNat : LogLevel → Nat
  | .VERBOSE => 0
  | .DEBUG => 1
  | .INFO => 2
  | .WARN => 3
  | .ERROR => 4
  | .FATAL => 5

namespace Logger

/-- `getLevelString`. -/
def getLevelString : LogLevel → Bytes
  | .VERBOSE => str "VERBOSE"
  | .DEBUG => str "DEBUG"
  | .INFO => str "INFO"
  | .WARN => str "WARN"
  | .ERROR => str "ERROR"
  | .FATAL => str "FATAL"

def buffersize : Nat := 4096

def newline : UInt8 := 10

/-- `snprintf(buffer + at_, size, ..)` of a text: the length of the text, and the buffer with as much
of it as goes into `size` bytes with a NUL. -/
def snprintf (buffer : Bytes) (at_ size : Nat) (text : Bytes) : Exec (Nat × Bytes) :=
  if size = 0 then .ok (text.length, buffer)
  else do
    let buffer ← Block.write buffer at_ (text.take (size - 1) ++ [0])
    return (text.length, buffer)

/-- `buffersize - offset`, an `int` that is passed as a `size_t`. -/
def remaining (offset : Nat) : Nat := (((buffersize : Int) - offset) % 2 ^ 64).toNat

/-- `buf[i]`. -/
def byte (buffer : Bytes) (i : Nat) : Exec UInt8 := derefOr .outOfBounds buffer[i]?

/-- What is taken off the end. -/
def Trailing (c : UInt8) : Prop := c = newline ∨ c = 0

instance (c : UInt8) : Decidable (Trailing c) := inferInstanceAs (Decidable (_ ∨ _))

/-- The loop that goes back over newlines and NULs. -/
def trimBack (buffer : Bytes) : Nat → Exec Nat
  | 0 => do
    let c ← byte buffer 0
    if Trailing c then .error .outOfBounds else return 0
  | offset + 1 => do
    let c ← byte buffer (offset + 1)
    if Trailing c then trimBack buffer offset else return offset + 1

/-- The bytes that `write` is given: those up to the NUL that `strlen` finds. -/
def output (buffer : Bytes) : Exec Bytes :=
  if 0 ∈ buffer then .ok (buffer.takeWhile (· ≠ 0)) else .error .outOfBounds

/-- What the first `snprintf` prints. -/
def heading (level : LogLevel) (time file : CString) (line : Nat) (func : CString) : Bytes :=
  str "[" ++ getLevelString level ++ str "] [" ++ time.chars ++ str "]: " ++ file.chars ++ str ": " ++
    stdToString line ++ str " " ++ func.chars ++ str " "

/-- What `log` does with a heading and a message. -/
def print (buffer heading msg : Bytes) : Exec Bytes := do
  let (n, buffer) ← snprintf buffer 0 buffersize heading
  let offset := n
  let (n, buffer) ← snprintf buffer offset (remaining offset) msg
  let offset := offset + n
  let offset ← trimBack buffer offset
  let buffer ← Block.write buffer (offset + 1) [newline]
  let buffer ← Block.write buffer (offset + 2) [0]
  output buffer

/-- `log`, in an array with anything in it. `msg` is what `fmt` and `args` say. -/
def log (level_ level : LogLevel) (buffer : Vector UInt8 buffersize) (time file : CString) (line : Nat)
    (func msg : CString) : Exec (Option Bytes) :=
  if level.toNat < level_.toNat then .ok none
  else do
    let line ← print buffer.toList (heading level time file line func) msg.chars
    return some line

/-- The text without trailing newlines, as much of it as fits, and a newline. -/
def lineOf (text : Bytes) : Bytes := (text.rdropWhile (· = newline)).take (buffersize - 2) ++ [newline]

/-- `log` stays inside its buffer, and what it emits is the line of the text. -/
def Logs (level_ level : LogLevel) (buffer : Vector UInt8 buffersize) (time file : CString) (line : Nat)
    (func msg : CString) : Prop :=
  log level_ level buffer time file line func msg =
    .ok (if level.toNat < level_.toNat then none
      else some (lineOf (heading level time file line func ++ msg.chars)))

/-- There is room for the text and two bytes more, or for one when a newline is taken off. -/
def Fits (text : Bytes) : Prop :=
  text.length ≤ buffersize - 2 ∨ text.length = buffersize - 1 ∧ text.getLast? = some newline

instance (text : Bytes) : Decidable (Fits text) := inferInstanceAs (Decidable (_ ∨ _))

variable {buffer buffer' text text' msg init rest : Bytes} {at_ size n i : Nat} {c : UInt8}

/-! ## The heading -/

theorem nul_getLevelString (level : LogLevel) : 0 ∉ getLevelString level := by
  cases level <;> decide

theorem nul_stdToString (n : Nat) : 0 ∉ stdToString n := fun h =>
  absurd (isdigit_stdToString n 0 h) (by decide)

theorem nul_heading (level : LogLevel) (time file : CString) (line : Nat) (func : CString) :
    0 ∉ heading level time file line func := by
  unfold heading
  simp only [List.mem_append, not_or]
  exact ⟨⟨⟨⟨⟨⟨⟨⟨⟨⟨by decide, nul_getLevelString level⟩, by decide⟩, time.nul⟩, by decide⟩, file.nul⟩,
    by decide⟩, nul_stdToString line⟩, by decide⟩, func.nul⟩, by decide⟩

/-- The heading ends in a blank, so there is always something to stop at. -/
theorem blank_mem_heading (level : LogLevel) (time file : CString) (line : Nat) (func : CString) :
    32 ∈ heading level time file line func := by
  unfold heading
  exact List.mem_append_right _ (by decide)

/-! ## The parts of `print` -/

/-- What is written behind the text that is there, up to the end of the buffer. -/
theorem snprintf_eq (buffer text msg : Bytes) (size : Nat)
    (hat : text.length + size = buffer.length) (hsize : 0 < size)
    (htext : buffer.take text.length = text) :
    ∃ rest, snprintf buffer text.length size msg =
        .ok (msg.length, (text ++ msg).take (buffer.length - 1) ++ 0 :: rest) ∧
      ((text ++ msg).take (buffer.length - 1) ++ 0 :: rest).length = buffer.length := by
  have hcut : (text ++ msg).take (buffer.length - 1) = text ++ msg.take (size - 1) := by
    rw [List.take_append, List.take_of_length_le (by omega),
      show buffer.length - 1 - text.length = size - 1 by omega]
  have hlength : (msg.take (size - 1)).length ≤ size - 1 := by
    rw [List.length_take]
    omega
  refine ⟨buffer.drop (text.length + (msg.take (size - 1)).length + 1), ?_, ?_⟩
  · unfold snprintf Block.write
    rw [if_neg (by omega), List.length_append, List.length_singleton, if_pos (by omega), htext, hcut,
      ok_bind, ← Nat.add_assoc]
    simp
  · rw [hcut]
    simp only [List.length_append, List.length_cons, List.length_drop]
    omega

theorem snprintf_length (h : snprintf buffer at_ size text = .ok (n, buffer')) :
    n = text.length ∧ buffer'.length = buffer.length := by
  unfold snprintf at h
  split at h
  · cases h
    exact ⟨rfl, rfl⟩
  · obtain ⟨written, hwritten, h⟩ := bind_eq_ok.mp h
    cases h
    unfold Block.write at hwritten
    split at hwritten
    · cases hwritten
      refine ⟨rfl, ?_⟩
      simp only [List.length_append, List.length_take, List.length_drop] at *
      omega
    · cases hwritten

theorem byte_middle (init : Bytes) (c : UInt8) (rest : Bytes) :
    byte (init ++ c :: rest) init.length = .ok c := by
  unfold byte
  rw [List.getElem?_append_right (Nat.le_refl _), Nat.sub_self]
  rfl

/-- Outside the buffer there is nothing to go back over. -/
theorem trimBack_outside (h : buffer.length ≤ i) : trimBack buffer i = .error .outOfBounds := by
  have hbyte : byte buffer i = .error .outOfBounds := by
    unfold byte
    rw [List.getElem?_eq_none h]
    rfl
  cases i <;> rw [trimBack, hbyte, error_bind]

/-- The loop goes back to the last character that it does not take off. -/
theorem trimBack_eq (init : Bytes) (hc : ¬Trailing c) : ∀ (tail rest : Bytes), (∀ d ∈ tail, Trailing d) →
    trimBack (init ++ c :: (tail ++ rest)) (init.length + tail.length) = .ok init.length := by
  intro tail
  induction tail using List.reverseRecOn with
  | nil =>
    intro rest _
    have hbyte := byte_middle init c rest
    rw [List.nil_append, List.length_nil, Nat.add_zero]
    cases hlength : init.length with
    | zero =>
      rw [hlength] at hbyte
      rw [trimBack, hbyte, ok_bind, if_neg hc]
      rfl
    | succ k =>
      rw [hlength] at hbyte
      rw [trimBack, hbyte, ok_bind, if_neg hc]
      rfl
  | append_singleton tail d ih =>
    intro rest htail
    have hd : Trailing d := htail d (by simp)
    have hbyte := byte_middle (init ++ c :: tail) d rest
    have hassoc : init ++ c :: (tail ++ [d] ++ rest) = init ++ c :: tail ++ d :: rest := by simp
    have hrest : init ++ c :: tail ++ d :: rest = init ++ c :: (tail ++ d :: rest) := by simp
    rw [List.length_append, List.length_cons, ← Nat.add_assoc] at hbyte
    rw [hassoc, List.length_append, List.length_singleton, ← Nat.add_assoc, trimBack, hbyte, ok_bind,
      if_pos hd, hrest]
    exact ih (d :: rest) fun x hx => htail x (by simp [hx])

theorem output_eq (hinit : 0 ∉ init) : output (init ++ 0 :: rest) = .ok init := by
  unfold output
  rw [if_pos (by simp), List.takeWhile_append_of_pos]
  · rw [List.takeWhile_cons_of_neg (by simp), List.append_nil]
  · intro c hc
    simp only [ne_eq, decide_eq_true_eq]
    rintro rfl
    exact hinit hc

/-- A text with a character that is no newline ends in one and newlines after it. -/
theorem exists_last (text : Bytes) (htext : 32 ∈ text) : ∃ init c tail, text = init ++ c :: tail ∧ c ≠ newline ∧
    (∀ d ∈ tail, d = newline) ∧ text.rdropWhile (· = newline) = init ++ [c] := by
  have hne : text.rdropWhile (· = newline) ≠ [] := by
    intro hnil
    have hall := List.rdropWhile_eq_nil_iff.mp hnil 32 htext
    exact absurd hall (by decide)
  have hlast := List.rdropWhile_last_not (fun c => decide (c = newline)) text hne
  have hsplit : text.rdropWhile (· = newline) ++ text.rtakeWhile (· = newline) = text :=
    List.rdropWhile_append_rtakeWhile
  have hconcat := List.dropLast_append_getLast hne
  refine ⟨_, _, text.rtakeWhile (· = newline), ?_, by simpa using hlast, ?_, hconcat.symm⟩
  · rw [List.append_cons, hconcat, hsplit]
  · intro d hd
    simpa using List.mem_rtakeWhile_imp hd

theorem write_middle (init : Bytes) (c d : UInt8) (rest : Bytes) :
    Block.write (init ++ c :: rest) init.length [d] = .ok (init ++ d :: rest) := by
  have hdrop : (init ++ c :: rest).drop (init.length + 1) = rest := by
    rw [List.append_cons]
    exact List.drop_left' (by simp)
  unfold Block.write
  rw [List.length_singleton, hdrop, List.take_left, if_pos (by simp), List.append_assoc,
    List.singleton_append]

theorem write_end (init : Bytes) (d : UInt8) :
    Block.write init init.length [d] = .error .outOfBounds := by
  unfold Block.write
  rw [List.length_singleton, if_neg (by omega)]

/-- What is printed into a buffer that the text goes into. -/
theorem snprintf_both {heading : Bytes} (hbuffer : buffer.length = buffersize)
    (htext : (heading ++ msg).length < buffersize) :
    ∃ buffer₁ rest, snprintf buffer 0 buffersize heading = .ok (heading.length, buffer₁) ∧
      snprintf buffer₁ heading.length (remaining heading.length) msg =
        .ok (msg.length, heading ++ msg ++ 0 :: rest) ∧
      (heading ++ msg ++ 0 :: rest).length = buffersize := by
  have hlength : (heading ++ msg).length = heading.length + msg.length := List.length_append
  have hpos : 0 < buffersize := by decide
  obtain ⟨rest₁, hfirst, hlength₁⟩ := snprintf_eq buffer [] heading buffersize
    (by rw [List.length_nil, hbuffer, Nat.zero_add]) hpos (by simp)
  rw [List.nil_append, hbuffer, List.take_of_length_le (by omega)] at hfirst hlength₁
  have hremaining : remaining heading.length = buffersize - heading.length := by
    unfold remaining
    rw [Int.emod_eq_of_lt] <;> unfold buffersize at * <;> omega
  obtain ⟨rest₂, hsecond, hlength₂⟩ := snprintf_eq (heading ++ 0 :: rest₁) heading msg
    (buffersize - heading.length) (by omega) (by omega) List.take_left
  rw [hlength₁, List.take_of_length_le (by omega)] at hsecond hlength₂
  exact ⟨_, rest₂, hfirst, by rw [hremaining]; exact hsecond, hlength₂⟩

/-- A text that does not go into the buffer. -/
theorem print_outside {heading line : Bytes} (hbuffer : buffer.length = buffersize)
    (htext : buffersize ≤ (heading ++ msg).length) : print buffer heading msg ≠ .ok line := by
  intro h
  unfold print at h
  obtain ⟨⟨n₁, buffer₁⟩, h₁, h⟩ := bind_eq_ok.mp h
  obtain ⟨⟨n₂, buffer₂⟩, h₂, h⟩ := bind_eq_ok.mp h
  obtain ⟨rfl, hlength₁⟩ := snprintf_length h₁
  obtain ⟨rfl, hlength₂⟩ := snprintf_length h₂
  -- the terminating NUL is looked for behind the end
  have hout : buffer₂.length ≤ heading.length + msg.length := by
    rw [← List.length_append]
    omega
  dsimp only at h
  rw [trimBack_outside hout, error_bind] at h
  cases h

section

variable {heading tail : Bytes} (hsplit : heading ++ msg = init ++ c :: tail) (hc : c ≠ newline)
  (htail : ∀ d ∈ tail, d = newline)
include hsplit hc htail

/-- The newlines and the NUL behind the text are gone over. -/
theorem trimBack_text (hc0 : c ≠ 0) (rest : Bytes) :
    trimBack (heading ++ msg ++ 0 :: rest) (heading.length + msg.length) = .ok init.length := by
  have htrailing : ∀ d ∈ tail ++ [0], Trailing d := by
    intro d hd
    rcases List.mem_append.mp hd with hd | hd
    · exact .inl (htail d hd)
    · exact .inr (List.mem_singleton.mp hd)
  have hback := trimBack_eq init (fun h => h.elim hc hc0) (tail ++ [0]) rest htrailing
  have hsum := congrArg List.length hsplit
  rw [List.length_append, List.length_append, List.length_cons] at hsum
  have hassoc : heading ++ msg ++ 0 :: rest = init ++ c :: (tail ++ [0] ++ rest) := by
    rw [hsplit]
    simp
  have hoffset : heading.length + msg.length = init.length + (tail ++ [0]).length := by
    rw [hsum, List.length_append, List.length_singleton]
  rw [hassoc, hoffset, hback]

/-- A newline and a NUL behind what is kept. -/
theorem print_kept (hbuffer : buffer.length = buffersize) (hnul : 0 ∉ heading ++ msg)
    (htext : (heading ++ msg).length < buffersize) :
    print buffer heading msg = if init.length + 2 < buffersize then .ok (init ++ [c] ++ [newline])
      else .error .outOfBounds := by
  obtain ⟨buffer₁, rest, hfirst, hsecond, hlength⟩ := snprintf_both hbuffer htext
  have hc0 : c ≠ 0 := by
    rintro rfl
    exact hnul (by rw [hsplit]; simp)
  have hinit : 0 ∉ init ++ [c] ++ [newline] := by
    intro hmem
    simp only [List.mem_append, List.mem_singleton] at hmem
    rcases hmem with (hmem | hmem) | hmem
    · exact hnul (by rw [hsplit]; simp [hmem])
    · exact hc0 hmem.symm
    · exact absurd hmem (by decide)
  -- the byte behind the text that is kept, and the ones behind that
  obtain ⟨d, post, hpost⟩ : ∃ d post, tail ++ 0 :: rest = d :: post := by
    cases tail with
    | nil => exact ⟨0, rest, rfl⟩
    | cons d tail => exact ⟨d, tail ++ 0 :: rest, rfl⟩
  have hbuffer₂ : heading ++ msg ++ 0 :: rest = init ++ [c] ++ d :: post := by
    rw [hsplit, ← hpost]
    simp
  have htrim := trimBack_text hsplit hc htail hc0 rest
  have hnewline := write_middle (init ++ [c]) d newline post
  rw [hbuffer₂, List.length_append, List.length_append, List.length_singleton, List.length_cons]
    at hlength
  rw [List.length_append, List.length_singleton] at hnewline
  have hprint : print buffer heading msg = (do
      let buffer ← Block.write (init ++ [c] ++ newline :: post) (init.length + 2) [0]
      output buffer) := by
    unfold print
    rw [hfirst, ok_bind]
    dsimp only
    rw [hsecond, ok_bind]
    dsimp only
    rw [htrim, ok_bind, hbuffer₂, hnewline, ok_bind]
  have hkept : (init ++ [c] ++ [newline]).length = init.length + 2 := by simp
  rw [hprint]
  cases post with
  | nil =>
    rw [List.length_nil] at hlength
    rw [if_neg (by omega), ← hkept, write_end, error_bind]
  | cons z post =>
    rw [List.length_cons] at hlength
    rw [if_pos (by omega), List.append_cons (init ++ [c]) newline, ← hkept, write_middle, ok_bind,
      output_eq hinit]

/-- The text fits if what is kept leaves room for two bytes. -/
theorem fits_iff (htext : (heading ++ msg).length < buffersize) :
    Fits (heading ++ msg) ↔ init.length + 2 < buffersize := by
  have hsum : (heading ++ msg).length = init.length + (tail.length + 1) := by
    rw [hsplit, List.length_append, List.length_cons]
  unfold Fits
  cases tail using List.reverseRecOn with
  | nil =>
    have hlast : (heading ++ msg).getLast? ≠ some newline := by
      rw [hsplit, List.getLast?_append]
      simpa using hc
    rw [List.length_nil] at hsum
    constructor
    · rintro (hshort | ⟨-, hnewline⟩)
      · omega
      · exact absurd hnewline hlast
    · exact fun h => .inl (by omega)
  | append_singleton tail d =>
    have hd : d = newline := htail d (by simp)
    have hlast : (heading ++ msg).getLast? = some newline := by
      rw [hsplit, ← hd, List.append_cons, ← List.append_assoc, List.getLast?_append]
      simp
    have htaken : (tail ++ [d]).length = tail.length + 1 := List.length_append
    constructor
    · rintro (hshort | ⟨hlong, -⟩) <;> omega
    · intro h
      by_cases hshort : (heading ++ msg).length ≤ buffersize - 2
      · exact .inl hshort
      · exact .inr ⟨by omega, hlast⟩

end

/-- **A line is printed inside the buffer exactly if the text fits, and then it is the right one.** -/
theorem print_iff (buffer msg line : Bytes) {heading : Bytes} (hbuffer : buffer.length = buffersize)
    (hblank : 32 ∈ heading) (hheading : 0 ∉ heading) (hmsg : 0 ∉ msg) :
    print buffer heading msg = .ok line ↔ Fits (heading ++ msg) ∧ line = lineOf (heading ++ msg) := by
  by_cases htext : (heading ++ msg).length < buffersize
  · obtain ⟨init, c, tail, hsplit, hc, htail, hdrop⟩ :=
      exists_last (heading ++ msg) (List.mem_append_left _ hblank)
    have hnul : 0 ∉ heading ++ msg := by
      rw [List.mem_append, not_or]
      exact ⟨hheading, hmsg⟩
    rw [print_kept hsplit hc htail hbuffer hnul htext, fits_iff hsplit hc htail htext]
    by_cases hroom : init.length + 2 < buffersize
    · have hline : lineOf (heading ++ msg) = init ++ [c] ++ [newline] := by
        unfold lineOf
        rw [hdrop, List.take_of_length_le]
        rw [List.length_append, List.length_singleton]
        omega
      rw [if_pos hroom, hline]
      constructor
      · intro h
        cases h
        exact ⟨hroom, rfl⟩
      · rintro ⟨-, rfl⟩
        rfl
    · rw [if_neg hroom]
      constructor
      · intro h
        cases h
      · exact fun h => absurd h.1 hroom
  · constructor
    · exact fun h => absurd h (print_outside hbuffer (by omega))
    · rintro ⟨hfits | ⟨hlength, -⟩, -⟩ <;> unfold buffersize at * <;> omega

/-! ## `log` -/

variable {level_ level : LogLevel} {garbage : Vector UInt8 buffersize} {time file func message : CString}
  {line : Nat}

/--
**`log` stays inside its buffer and emits the line of its text** exactly if the level is filtered
out, or the text has at most 4094 bytes, or 4095 with a newline at the end.
-/
theorem logs_iff : Logs level_ level garbage time file line func message ↔
    level.toNat < level_.toNat ∨ Fits (heading level time file line func ++ message.chars) := by
  unfold Logs log
  by_cases hlevel : level.toNat < level_.toNat
  · rw [if_pos hlevel, if_pos hlevel]
    exact ⟨fun _ => .inl hlevel, fun _ => rfl⟩
  · rw [if_neg hlevel, if_neg hlevel]
    have hprint := print_iff garbage.toList message.chars
      (lineOf (heading level time file line func ++ message.chars)) (by simp)
      (blank_mem_heading level time file line func) (nul_heading level time file line func) message.nul
    constructor
    · intro h
      obtain ⟨out, hout, h⟩ := bind_eq_ok.mp h
      rw [Option.some.inj (Except.ok.inj h)] at hout
      exact .inr (hprint.mp hout).1
    · rintro (h | hfits)
      · exact absurd h hlevel
      · rw [hprint.mpr ⟨hfits, rfl⟩]
        rfl

/-- A text that is longer than the buffer. -/
theorem not_logs (hlevel : ¬level.toNat < level_.toNat)
    (htext : buffersize ≤ (heading level time file line func ++ message.chars).length) :
    ¬Logs level_ level garbage time file line func message := by
  unfold Logs log
  rw [if_neg hlevel, if_neg hlevel]
  intro h
  obtain ⟨out, hout, -⟩ := bind_eq_ok.mp h
  exact print_outside (by simp) htext hout

/-! ## The message of `openFile` -/

/-- `"open %s error: %s"`. -/
def openMessage (filepath err : CString) : CString where
  chars := str "open " ++ filepath.chars ++ str " error: " ++ err.chars
  nul := by
    simp only [List.mem_append, not_or]
    exact ⟨⟨⟨by decide, filepath.nul⟩, by decide⟩, err.nul⟩

/-- `FileDescriptor::openFile`: the descriptor, and the line that is logged. `answer` is what `open`
gives, or the text of its error. -/
def openFile (level_ : LogLevel) (garbage : Vector UInt8 buffersize) (time file : CString) (line : Nat)
    (filepath : Bytes) (answer : CString ⊕ Nat) : Exec (Option Nat × Option Bytes) :=
  if filepath = [] then .ok (none, none)
  else
    match answer with
    | .inr fd => .ok (some fd, none)
    | .inl err => do
      let func : CString := { chars := str "openFile", nul := by decide }
      let out ← log level_ .ERROR garbage time file line func (openMessage (.ofString filepath) err)
      return (none, out)

/-- The path of a request as it is printed. -/
theorem chars_ofString {filepath : Bytes} (h : 0 ∉ filepath) :
    (CString.ofString filepath).chars = filepath := by
  unfold CString.ofString
  rw [List.takeWhile_eq_self_iff]
  intro c hc
  simp only [ne_eq, decide_eq_true_eq]
  rintro rfl
  exact h hc

theorem length_openMessage {filepath : Bytes} (h : 0 ∉ filepath) (err : CString) :
    filepath.length ≤ (openMessage (.ofString filepath) err).chars.length := by
  show _ ≤ (str "open " ++ (CString.ofString filepath).chars ++ str " error: " ++ err.chars).length
  rw [chars_ofString h]
  simp only [List.length_append]
  omega

/-- **A path of 4096 characters that is not opened leads `log` out of its buffer.** -/
theorem openFile_outside {filepath : Bytes} (hlevel : level_ ≠ .FATAL) (h : 0 ∉ filepath)
    (hlength : buffersize ≤ filepath.length) (err : CString) (r : Option Nat × Option Bytes) :
    openFile level_ garbage time file line filepath (.inl err) ≠ .ok r := by
  have hne : filepath ≠ [] := by
    rintro rfl
    exact absurd hlength (by decide)
  have hfilter : ¬LogLevel.ERROR.toNat < level_.toNat := by
    revert hlevel
    cases level_ <;> decide
  have hmessage := length_openMessage h err
  intro hr
  unfold openFile log at hr
  rw [if_neg hne] at hr
  dsimp only at hr
  rw [if_neg hfilter] at hr
  obtain ⟨out, hout, -⟩ := bind_eq_ok.mp hr
  obtain ⟨out', hout', -⟩ := bind_eq_ok.mp hout
  refine print_outside (by simp) ?_ hout'
  rw [List.length_append]
  omega

/-- The path of a request for 4096 letters. `open` refuses it. -/
def longPath : Bytes := List.replicate buffersize 97

theorem nul_longPath : 0 ∉ longPath := fun h => absurd (List.eq_of_mem_replicate h) (by decide)

/-- What `openFile` logs for it. -/
def longMessage : CString := openMessage (.ofString longPath) (.ofString (str "File name too long"))

theorem log_leaves_buffer :
    ¬Logs .DEBUG .ERROR (Vector.replicate buffersize 0) (.ofString (str "2016-03-01 12:00:00"))
        (.ofString (str "FileDescriptor.cpp")) 25 (.ofString (str "openFile")) longMessage ∧
      ¬∀ (level_ level : LogLevel) (garbage : Vector UInt8 buffersize) (time file : CString) (line : Nat)
        (func message : CString), Logs level_ level garbage time file line func message := by
  have hmessage := length_openMessage nul_longPath (.ofString (str "File name too long"))
  have hnot (time file func : CString) (line : Nat) :
      ¬Logs .DEBUG .ERROR (Vector.replicate buffersize 0) time file line func longMessage := by
    refine not_logs (by decide) ?_
    rw [List.length_append]
    unfold longMessage longPath at *
    rw [List.length_replicate] at hmessage
    omega
  exact ⟨hnot _ _ _ _, fun hall => hnot longMessage longMessage longMessage 0 (hall _ _ _ _ _ _ _ _)⟩

end Logger

end Liby
