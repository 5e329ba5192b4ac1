import StyleZones.Json.Printer
import StyleZones.Proofs.Json.Reading

/-!
# Layouts of a document

A document is read back from its text, in the compact layout and in the indented one. Both layouts
are texts of the grammar, and nothing but blanks between the tokens tells them apart.

* `Json.Plain` are the documents in which strings and numbers are written as this program writes
  them.
* `Json.Plain.value_compact` and `Json.Plain.value_pretty`: both layouts of a plain document spell
  this document, however deeply it is indented. `Json.Plain.read?_compact` and
  `Json.Plain.read?_pretty` follow.
-/

set_option autoImplicit false

namespace StyleZones.Json

/-! ## Plain documents -/

/-- The document is written the way the values of this program are: strings and keys with no escape
that is not needed, numbers in decimal and of 64 bits. -/
inductive Plain : Json → Prop
  | null : Plain .null
  | bool (b : Bool) : Plain (.bool b)
  | num {n : Nat} (h : n < UInt64.size) : Plain (.num (Decimal.digits n))
  | str (t : List Char) : Plain (.str (Quoted.encode t))
  | arr {items : List Json} (h : ∀ v ∈ items, Plain v) : Plain (.arr items)
  | obj {members : List (List Char × Json)} (keys : ∀ m ∈ members, ∃ t, m.1 = Quoted.encode t)
      (values : ∀ m ∈ members, Plain m.2) : Plain (.obj members)

namespace Grammar

/-! ## Tokens as they are written -/

theorem gap_nil : Gap [] := by
  intro c hc
  cases hc

theorem gap_blank : Gap [' '] := by
  intro c hc
  rw [List.mem_singleton.1 hc]
  simp

theorem gap_newline (level : Nat) : Gap (newline level) := by
  intro c hc
  rcases List.mem_cons.1 hc with rfl | hc
  · simp
  · rw [List.eq_of_mem_replicate hc]
    simp

theorem hex_hexDigit : ∀ d < 16, Hex (Quoted.hexDigit d) := by
  unfold Hex
  decide

/-- No character of a text that has to be escaped is written as it is. -/
theorem characters_encode (t : List Char) : Characters (Quoted.encode t) := by
  induction t with
  | nil => exact .nil
  | cons c t ih =>
    rw [Quoted.encode, List.flatMap_cons, ← Quoted.encode]
    rcases Quoted.encodeChar_cases c with
      ⟨e, he, hc⟩ | ⟨hcontrol, he⟩ | ⟨he, hquote, hslash, hplain⟩
    · rw [he]
      exact .escape ((isSome_shortEscape?_iff e).1 (by rw [hc]; rfl)) ih
    · -- A control character has a number of two hexadecimal digits, and two zeros in front of them.
      have hdigits : ∀ d ∈ ['0', '0', Quoted.hexDigit (c.toNat / 16),
          Quoted.hexDigit (c.toNat % 16)], Hex d := by
        intro d hd
        simp only [List.mem_cons, List.not_mem_nil, or_false] at hd
        rcases hd with rfl | rfl | rfl | rfl
        · exact hex_hexDigit 0 (by omega)
        · exact hex_hexDigit 0 (by omega)
        · exact hex_hexDigit _ (by omega)
        · exact hex_hexDigit _ (by omega)
      rw [he]
      exact .hex rfl hdigits ih
    · rw [he]
      exact .plain hquote hslash hplain ih

theorem whole_digits (n : Nat) : Whole (Decimal.digits n) := by
  obtain ⟨c, ds, hds, hc⟩ := Decimal.digits_eq_cons n
  rcases Nat.eq_zero_or_pos n with rfl | hpos
  · rw [Decimal.digits]
    exact .zero
  · apply Whole.other
    · exact ⟨by simp [hds], Decimal.isDigit_of_mem_digits n⟩
    · simpa [hds] using hc hpos

/-- The digits of a number are a number by the rules. -/
theorem number_digits (n : Nat) : Number (Decimal.digits n) := by
  have h : Number ([] ++ (Decimal.digits n ++ ([] ++ []))) :=
    .mk (by simp) (whole_digits n) .none .none
  simpa using h

/-! ## Containers -/

section Container

variable {chars : Json → List Char} {before last : List Char} (hbefore : Gap before)
  (hlast : Gap last)
include hbefore hlast

/-- The items of an array up to the bracket that closes it, in a layout that puts the same blanks
before every item. -/
theorem elements_layout (items : List Json → List Char) (hnil : items [] = last ++ [']'])
    (hcons : ∀ w ws, items (w :: ws) = ',' :: (before ++ (chars w ++ items ws))) {v : Json}
    {vs : List Json} (h : ∀ w ∈ v :: vs, Value (chars w) w) :
    ∃ cs, before ++ (chars v ++ items vs) = cs ++ [']'] ∧ Elements cs (v :: vs) := by
  -- What follows an item is the bracket, or a comma and the rest of the items.
  induction vs generalizing v with
  | nil =>
    refine ⟨_, ?_, .last (.mk hbefore (h v List.mem_cons_self) hlast)⟩
    simp [hnil]
  | cons w vs ih =>
    obtain ⟨cs, hcs, hrest⟩ := ih fun u hu => h u (List.mem_cons_of_mem v hu)
    refine ⟨_, ?_, .more (.mk hbefore (h v List.mem_cons_self) gap_nil) hrest⟩
    rw [hcons, hcs]
    simp

/-- The members of an object up to the brace that closes it, in a layout that puts the same blanks
before every member and before every value. -/
theorem members_layout {middle : List Char} (hmiddle : Gap middle)
    (members : List (List Char × Json) → List Char) (hnil : members [] = last ++ ['\x7d'])
    (hcons : ∀ n ns, members (n :: ns) =
      ',' :: (before ++ (quoteRaw n.1 ++ ':' :: (middle ++ (chars n.2 ++ members ns)))))
    {m : List Char × Json} {ms : List (List Char × Json)}
    (hkeys : ∀ n ∈ m :: ms, ∃ t, n.1 = Quoted.encode t) (h : ∀ n ∈ m :: ms, Value (chars n.2) n.2) :
    ∃ cs, before ++ (quoteRaw m.1 ++ ':' :: (middle ++ (chars m.2 ++ members ms))) =
      cs ++ ['\x7d'] ∧ Members cs (m :: ms) := by
  have hmember : ∀ n, (∃ t, n.1 = Quoted.encode t) → Value (chars n.2) n.2 → ∀ {after}, Gap after →
      Member (before ++ (quoteRaw n.1 ++ ':' :: (middle ++ (chars n.2 ++ after)))) n := by
    rintro ⟨key, v⟩ ⟨t, rfl⟩ hv after hafter
    have hm := Member.mk hbefore (characters_encode t) gap_nil (.mk hmiddle hv hafter)
    simpa [quoteRaw] using hm
  induction ms generalizing m with
  | nil =>
    refine ⟨_, ?_, .last (hmember m (hkeys m List.mem_cons_self) (h m List.mem_cons_self) hlast)⟩
    simp [hnil]
  | cons n ms ih =>
    obtain ⟨cs, hcs, hrest⟩ := ih (fun k hk => hkeys k (List.mem_cons_of_mem m hk))
      fun k hk => h k (List.mem_cons_of_mem m hk)
    refine ⟨_, ?_,
      .more (hmember m (hkeys m List.mem_cons_self) (h m List.mem_cons_self) gap_nil) hrest⟩
    rw [hcons, hcs]
    simp

end Container

end Grammar

open Grammar

/-! ## The layouts -/

/-- The compact layout of a plain document spells the document. -/
theorem Plain.value_compact {v : Json} (h : Plain v) : Value (compactChars v) v := by
  induction h with
  | null => exact .null
  | bool b =>
    cases b with
    | false => exact .false
    | true => exact .true
  | num h => exact .number (number_digits _)
  | str t => exact .string (characters_encode t)
  | @arr items _ ih =>
    cases items with
    | nil => exact .emptyArray gap_nil
    | cons v vs =>
      obtain ⟨cs, hcs, helements⟩ := elements_layout gap_nil gap_nil compactItems rfl
        (fun w ws => by rw [compactItems]; rfl) ih
      have hlayout : compactChars (.arr (v :: vs)) = '[' :: (cs ++ [']']) := by
        rw [← hcs, compactChars]
        rfl
      rw [hlayout]
      exact .array helements
  | @obj members hkeys _ ih =>
    cases members with
    | nil => exact .emptyObject gap_nil
    | cons m ms =>
      obtain ⟨cs, hcs, hmembers⟩ := members_layout gap_nil gap_nil gap_nil compactMembers rfl
        (fun n ns => by simp [compactMembers]) hkeys ih
      obtain ⟨key, v⟩ := m
      have hlayout : compactChars (.obj ((key, v) :: ms)) = '\x7b' :: (cs ++ ['\x7d']) := by
        rw [← hcs, compactChars]
        simp
      rw [hlayout]
      exact .object hmembers

/-- The indented layout of a plain document spells the document. -/
theorem Plain.value_pretty {v : Json} (h : Plain v) (level : Nat) :
    Value (prettyChars level v) v := by
  induction h generalizing level with
  | null => exact .null
  | bool b =>
    cases b with
    | false => exact .false
    | true => exact .true
  | num h => exact .number (number_digits _)
  | str t => exact .string (characters_encode t)
  | @arr items _ ih =>
    cases items with
    | nil => exact .emptyArray gap_nil
    | cons v vs =>
      -- Items are indented one level more than the bracket that closes the array.
      obtain ⟨cs, hcs, helements⟩ := elements_layout (gap_newline (level + 1)) (gap_newline level)
        (prettyItems level) rfl (fun w ws => by simp [prettyItems]) fun w hw => ih w hw (level + 1)
      have hlayout : prettyChars level (.arr (v :: vs)) = '[' :: (cs ++ [']']) := by
        rw [← hcs, prettyChars]
        simp
      rw [hlayout]
      exact .array helements
  | @obj members hkeys _ ih =>
    cases members with
    | nil => exact .emptyObject gap_nil
    | cons m ms =>
      obtain ⟨cs, hcs, hmembers⟩ := members_layout (gap_newline (level + 1)) (gap_newline level)
        gap_blank (prettyMembers level) rfl (fun n ns => by simp [prettyMembers]) hkeys
        fun n hn => ih n hn (level + 1)
      obtain ⟨key, v⟩ := m
      have hlayout : prettyChars level (.obj ((key, v) :: ms)) = '\x7b' :: (cs ++ ['\x7d']) := by
        rw [← hcs, prettyChars]
        simp
      rw [hlayout]
      exact .object hmembers

/-- A plain document is spelled by its compact layout. -/
theorem Plain.document_compact {v : Json} (h : Plain v) : Document v.compact v := by
  have helement := Element.mk gap_nil h.value_compact gap_nil
  rw [List.nil_append, List.append_nil] at helement
  rwa [Document, compact, String.toList_ofList]

/-- The indented layout is a text of the grammar, with or without blanks after it. -/
theorem Plain.element_pretty {v : Json} (h : Plain v) {after : List Char} (hafter : Gap after) :
    Element (prettyChars 0 v ++ after) v :=
  .mk gap_nil (h.value_pretty 0) hafter

/-- A plain document is read back from its compact layout. -/
theorem Plain.read?_compact {v : Json} (h : Plain v) : read? v.compact = some v :=
  (read?_eq_some_iff _ v).2 h.document_compact

/-- A plain document is read back from its indented layout. -/
theorem Plain.read?_pretty {v : Json} (h : Plain v) : read? v.pretty = some v := by
  rw [read?_eq_some_iff, Document, pretty, String.toList_ofList,
    ← List.append_nil (prettyChars 0 v)]
  exact h.element_pretty gap_nil

end StyleZones.Json
