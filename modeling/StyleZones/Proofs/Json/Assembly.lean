import StyleZones.Json.Reader

/-!
# Assembling a document from its tokens

The second half of reading: a stack machine puts tokens together to a document.

* `Json.tokens` are the tokens of a document, and the document is assembled from them
  (`Json.ofTokens?_tokens`).
* There is no other way to it (`Json.ofTokens?_eq_some_iff`). The containers that are open tell
  which tokens led into them (`Json.trail`), and every token leads on from where the assembly stands
  (`Json.Assembly.ReachedBy.step`).
-/

set_option autoImplicit false

namespace StyleZones.Json

/-! ## The tokens of a document -/

mutual

/-- The tokens of a document. -/
def tokens : Json → List Token
  | .null => [.scalar .null]
  | .bool b => [.scalar (.bool b)]
  | .num numeral => [.scalar (.num numeral)]
  | .str raw => [.quoted raw]
  | .arr [] => [.openArray, .closeArray]
  | .arr (v :: vs) => .openArray :: (tokens v ++ itemTokens vs)
  | .obj [] => [.openObject, .closeObject]
  | .obj ((k, v) :: ms) => .openObject :: .quoted k :: .colon :: (tokens v ++ memberTokens ms)

/-- The tokens from the end of an item to the end of its array, with these items to come. -/
def itemTokens : List Json → List Token
  | [] => [.closeArray]
  | v :: vs => .comma :: (tokens v ++ itemTokens vs)

/-- The tokens from the end of a member to the end of its object, with these members to come. -/
def memberTokens : List (List Char × Json) → List Token
  | [] => [.closeObject]
  | (k, v) :: ms => .comma :: .quoted k :: .colon :: (tokens v ++ memberTokens ms)

end

/-- The first token of a document does not close an array, so that a value may as well have been
expected. -/
theorem foldlM_opened (v : Json) (stack : List Frame) (ts : List Token) :
    (tokens v ++ ts).foldlM Assembly.step (.opened stack) =
      (tokens v ++ ts).foldlM Assembly.step (.value (.items [] :: stack)) := by
  rcases v with _ | _ | _ | _ | (_ | _) | (_ | _) <;> rfl

-- The recursion is that of the layouts: a document, the items after the first of an array, the
-- members after the first of an object. What has been read of the open container stands in its
-- frame, in reverse.
mutual

/-- The tokens of a document complete a value, which is the document. -/
theorem foldlM_tokens (v : Json) (stack : List Frame) (ts : List Token) :
    (tokens v ++ ts).foldlM Assembly.step (.value stack) =
      ts.foldlM Assembly.step (.complete stack v) := by
  cases v with
  | null => rfl
  | bool b => rfl
  | num numeral => rfl
  | str raw => rfl
  | arr items =>
    cases items with
    | nil => rfl
    | cons v vs =>
      rw [tokens, List.cons_append, List.append_assoc, List.foldlM_cons]
      exact (foldlM_opened v stack _).trans
        ((foldlM_tokens v _ _).trans (foldlM_itemTokens vs v [] stack ts))
  | obj members =>
    cases members with
    | nil => rfl
    | cons m ms =>
      obtain ⟨k, v⟩ := m
      rw [tokens, List.cons_append, List.cons_append, List.cons_append, List.append_assoc]
      exact (foldlM_tokens v _ _).trans (foldlM_memberTokens ms k v [] stack ts)

/-- The rest of an array completes it. -/
theorem foldlM_itemTokens (vs : List Json) (v : Json) (before : List Json) (stack : List Frame)
    (ts : List Token) :
    (itemTokens vs ++ ts).foldlM Assembly.step (.complete (.items before :: stack) v) =
      ts.foldlM Assembly.step (.complete stack (.arr (before.reverse ++ v :: vs))) := by
  cases vs with
  | nil => simp [itemTokens, Assembly.step]
  | cons w vs =>
    rw [itemTokens, List.cons_append, List.append_assoc]
    refine (foldlM_tokens w _ _).trans ((foldlM_itemTokens vs w (v :: before) stack ts).trans ?_)
    rw [List.reverse_cons, List.append_assoc, List.singleton_append]

/-- The rest of an object completes it. -/
theorem foldlM_memberTokens (ms : List (List Char × Json)) (k : List Char) (v : Json)
    (before : List (List Char × Json)) (stack : List Frame) (ts : List Token) :
    (memberTokens ms ++ ts).foldlM Assembly.step (.complete (.members before k :: stack) v) =
      ts.foldlM Assembly.step (.complete stack (.obj (before.reverse ++ (k, v) :: ms))) := by
  cases ms with
  | nil => simp [memberTokens, Assembly.step]
  | cons m ms =>
    obtain ⟨l, w⟩ := m
    rw [memberTokens, List.cons_append, List.cons_append, List.cons_append, List.append_assoc]
    refine (foldlM_tokens w _ _).trans
      ((foldlM_memberTokens ms l w ((k, v) :: before) stack ts).trans ?_)
    rw [List.reverse_cons, List.append_assoc, List.singleton_append]

end

/-- A document is assembled from its tokens. -/
theorem ofTokens?_tokens (v : Json) : ofTokens? (tokens v) = some v := by
  have h := foldlM_tokens v [] []
  rw [List.append_nil] at h
  rw [ofTokens?, h]
  rfl

/-! ## The way back -/

/-- The tokens of items that have been read, each with the comma after it. -/
def itemTrail (items : List Json) : List Token :=
  items.flatMap fun v => tokens v ++ [.comma]

/-- The tokens of members that have been read, each with the comma after it. -/
def memberTrail (members : List (List Char × Json)) : List Token :=
  members.flatMap fun m => .quoted m.1 :: .colon :: (tokens m.2 ++ [.comma])

/-- The tokens that led into the containers that are open. -/
def trail : List Frame → List Token
  | [] => []
  | .items before :: stack => trail stack ++ .openArray :: itemTrail before.reverse
  | .members before k :: stack =>
      trail stack ++ .openObject :: (memberTrail before.reverse ++ [.quoted k, .colon])

/-- The tokens led to where the assembly stands. -/
def Assembly.ReachedBy (ts : List Token) : Assembly → Prop
  | .value stack => ts = trail stack
  | .opened stack => ts = trail stack ++ [.openArray]
  | .key stack before fresh =>
      ts = trail stack ++ .openObject :: memberTrail before.reverse ∧ (fresh = true → before = [])
  | .colon stack before k =>
      ts = trail stack ++ .openObject :: (memberTrail before.reverse ++ [.quoted k])
  | .complete stack v => ts = trail stack ++ tokens v

theorem itemTokens_append_singleton (vs : List Json) (v : Json) :
    itemTokens (vs ++ [v]) = .comma :: (itemTrail vs ++ (tokens v ++ [.closeArray])) := by
  induction vs with
  | nil => rfl
  | cons w vs ih => simp [itemTokens, ih, itemTrail]

/-- The tokens of an array, told from its last item. -/
theorem tokens_arr_append_singleton (vs : List Json) (v : Json) :
    tokens (.arr (vs ++ [v])) = .openArray :: (itemTrail vs ++ (tokens v ++ [.closeArray])) := by
  cases vs with
  | nil => rfl
  | cons w vs => simp [tokens, itemTokens_append_singleton, itemTrail]

theorem memberTokens_append_singleton (ms : List (List Char × Json)) (k : List Char) (v : Json) :
    memberTokens (ms ++ [(k, v)]) =
      .comma :: (memberTrail ms ++ .quoted k :: .colon :: (tokens v ++ [.closeObject])) := by
  induction ms with
  | nil => rfl
  | cons m ms ih => simp [memberTokens, ih, memberTrail]

theorem tokens_obj_append_singleton (ms : List (List Char × Json)) (k : List Char) (v : Json) :
    tokens (.obj (ms ++ [(k, v)])) =
      .openObject :: (memberTrail ms ++ .quoted k :: .colon :: (tokens v ++ [.closeObject])) := by
  cases ms with
  | nil => rfl
  | cons m ms => simp [tokens, memberTokens_append_singleton, memberTrail]

/-- A literal or a number is one token. -/
def IsAtom (t : Token) : Prop :=
  ∀ v, t = .scalar v → tokens v = [.scalar v]

theorem Assembly.reachedBy_startValue {stack : List Frame} {t : Token} {b : Assembly}
    (ht : IsAtom t) (h : startValue stack t = some b) : b.ReachedBy (trail stack ++ [t]) := by
  cases t with
  | openArray =>
    cases h
    rfl
  | openObject =>
    cases h
    exact ⟨rfl, fun _ => rfl⟩
  | quoted raw =>
    cases h
    rfl
  | scalar v =>
    cases h
    rw [ReachedBy, ht v rfl]
  | _ => cases h

/-- One token more leads on. -/
theorem Assembly.ReachedBy.step {a b : Assembly} {ts : List Token} {t : Token} (ha : a.ReachedBy ts)
    (ht : IsAtom t) (h : a.step t = some b) : b.ReachedBy (ts ++ [t]) := by
  -- The cases are those of the machine; where a container is closed, its last entry is put to the
  -- others.
  unfold Assembly.step at h
  split at h
  case h_1 stack t =>
    obtain rfl := ha
    exact reachedBy_startValue ht h
  case h_2 stack =>
    obtain rfl := ha
    cases h
    rw [ReachedBy, List.append_assoc]
    rfl
  case h_3 =>
    obtain rfl := ha
    exact reachedBy_startValue ht h
  case h_4 stack before fresh raw =>
    obtain ⟨rfl, -⟩ := ha
    cases h
    rw [ReachedBy, List.append_assoc, List.cons_append]
  case h_5 stack before =>
    obtain ⟨rfl, hfresh⟩ := ha
    cases h
    rw [ReachedBy, hfresh rfl, List.append_assoc]
    rfl
  case h_6 stack before k =>
    obtain rfl := ha
    cases h
    simp [ReachedBy, trail]
  case h_7 before stack v =>
    obtain rfl := ha
    cases h
    simp [ReachedBy, trail, itemTrail]
  case h_8 before stack v =>
    obtain rfl := ha
    cases h
    simp [ReachedBy, trail, tokens_arr_append_singleton]
  case h_9 before k stack v =>
    obtain rfl := ha
    cases h
    simp [ReachedBy, trail, memberTrail]
  case h_10 before k stack v =>
    obtain rfl := ha
    cases h
    simp [ReachedBy, trail, tokens_obj_append_singleton]
  case h_11 => cases h

/-- So it is after any number of tokens. -/
theorem Assembly.ReachedBy.foldlM {a b : Assembly} {us ts : List Token} (ha : a.ReachedBy us)
    (hts : ∀ t ∈ ts, IsAtom t) (h : ts.foldlM Assembly.step a = some b) :
    b.ReachedBy (us ++ ts) := by
  induction ts generalizing a us with
  | nil =>
    cases h
    rwa [List.append_nil]
  | cons t ts ih =>
    rw [List.foldlM_cons] at h
    obtain ⟨c, hc, h⟩ := Option.bind_eq_some_iff.1 h
    have hstep := ha.step (hts t List.mem_cons_self) hc
    have hrun := ih hstep (fun u hu => hts u (List.mem_cons_of_mem t hu)) h
    rwa [List.append_assoc] at hrun

/-- A run of tokens is assembled to a document exactly if it is the run of its tokens. -/
theorem ofTokens?_eq_some_iff {ts : List Token} (hts : ∀ t ∈ ts, IsAtom t) (v : Json) :
    ofTokens? ts = some v ↔ ts = tokens v := by
  constructor
  · intro h
    obtain ⟨a, ha, hfinish⟩ := Option.bind_eq_some_iff.1 h
    have hreached : a.ReachedBy ([] ++ ts) := Assembly.ReachedBy.foldlM (a := .value []) rfl hts ha
    unfold Assembly.finish at hfinish
    split at hfinish
    · cases hfinish
      exact hreached
    · cases hfinish
  · rintro rfl
    exact ofTokens?_tokens v

end StyleZones.Json
