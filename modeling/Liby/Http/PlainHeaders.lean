import Liby.Http.HttpDef
import Liby.Http.RequestText

/-!
# Headers that are written and read back

A map whose names and values are plain text: the lines that `toString` writes for it are taken up
one by one, and give the same entries.
-/

namespace Liby.Http

open Infra
open Reply (headerLines)

/-- A name without blanks and colons, and a value that is a line and does not start with a blank. -/
structure PlainHeader (header : Bytes × Bytes) : Prop where
  name_ne : header.1 ≠ []
  name_token : ∀ c ∈ header.1, Cursor.isspace c = false ∧ c ≠ 58
  value_ne : header.2 ≠ []
  value_line : 10 ∉ header.2 ∧ 13 ∉ header.2
  value_start : ∀ c ∈ header.2.head?, Cursor.isspace c = false

/-- A map of such headers, with one entry for a name. -/
structure Headers.Plain (headers : Headers) : Prop where
  names : (headers.map Prod.fst).Nodup
  entries : ∀ header ∈ headers, PlainHeader header

namespace PlainHeader

variable {header : Bytes × Bytes}

/-- The line that `toString` writes. -/
def text (h : PlainHeader header) : HeaderText where
  name := header.1
  value := 32 :: header.2
  name_ne := h.name_ne
  name_token := h.name_token
  value_line := by simp [h.value_line.1]

theorem line_text (h : PlainHeader header) (rest : Bytes) :
    header.1 ++ str ": " ++ header.2 ++ str "\r\n" ++ rest = h.text.line ++ 10 :: rest := by
  have hcolon : str ": " = [58, 32] := rfl
  have hend : str "\r\n" = [13, 10] := rfl
  simp [HeaderText.line, text, hcolon, hend]

theorem length_text (h : PlainHeader header) :
    h.text.line.length + 1 = (header.1 ++ str ": " ++ header.2 ++ str "\r\n").length := by
  have hline := congrArg List.length (h.line_text [])
  rw [List.append_nil] at hline
  rw [hline]
  simp

/-- The first byte of the value is not blank. -/
theorem start (h : PlainHeader header) :
    ∃ c rest, header.2 = c :: rest ∧ Cursor.isspace c = false := by
  obtain ⟨c, rest, hvalue⟩ := List.exists_cons_of_ne_nil h.value_ne
  exact ⟨c, rest, hvalue, h.value_start c (by rw [hvalue]; rfl)⟩

theorem filled_text (h : PlainHeader header) : h.text.Filled := by
  obtain ⟨c, rest, hvalue, hc⟩ := h.start
  refine ⟨c, ?_, hc⟩
  show c ∈ 32 :: header.2
  rw [hvalue]
  simp

theorem headerKey_text (h : PlainHeader header) : headerKey h.text.name = header.1 := by
  show header.1.rdropWhile Cursor.isspace = header.1
  refine List.rdropWhile_eq_self_iff.mpr fun hne => ?_
  rw [(h.name_token _ (List.getLast_mem hne)).1]
  exact Bool.false_ne_true

theorem headerValue_text (h : PlainHeader header) : headerValue h.text.value = header.2 := by
  obtain ⟨c, rest, hvalue, hc⟩ := h.start
  show (32 :: header.2).dropWhile Cursor.isspace = header.2
  have hblank : Cursor.isspace 32 = true := by decide
  rw [hvalue, List.dropWhile_cons_of_pos hblank, List.dropWhile_cons_of_neg (by simp [hc])]

end PlainHeader

/-- An entry under a name that is new. -/
theorem Headers.set_new {headers : Headers} {key : Bytes} (h : key ∉ headers.map Prod.fst)
    (value : Bytes) : headers.set key value = headers ++ [(key, value)] := by
  unfold Headers.set
  rw [List.filter_eq_self.mpr]
  intro header hheader
  rw [decide_eq_true_eq]
  rintro rfl
  exact h (List.mem_map_of_mem hheader)

theorem headerLines_cons (header : Bytes × Bytes) (headers : Headers) :
    headerLines (header :: headers)
      = header.1 ++ str ": " ++ header.2 ++ str "\r\n" ++ headerLines headers := by
  simp [headerLines]

/-- The names that are left after the first one, in a map with one entry for a name. -/
theorem nodup_step {before headers : Headers} {header : Bytes × Bytes}
    (h : ((before ++ header :: headers).map Prod.fst).Nodup) :
    header.1 ∉ before.map Prod.fst ∧
      (((before ++ [header]) ++ headers).map Prod.fst).Nodup := by
  refine ⟨fun hmem => ?_, by simpa using h⟩
  rw [List.map_append, List.nodup_append] at h
  exact h.2.2 _ hmem _ (by simp) rfl

end Liby.Http
