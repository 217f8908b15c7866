import DeclClosure.Json.Reader
import DeclClosure.Json.Text
import DeclClosure.Proofs.Config.Members

/-!
# The text of a document determines it

A written document is cut out of a longer text by its own characters alone: what follows it does not
matter (`Json.Value.IsCut`). A string ends at the first quote that is not escaped, which is where the
reader of documents ends it (`Json.readString_quote`); a list or an object ends where a line break
and not a comma follows an item. So two documents of texts, lists and objects have the same text
exactly when they differ at most in the order of members (`Json.separates_text`).
-/

namespace DeclClosure

open Json (Value)

/-! ### Sorting what is sorted -/

namespace Text

variable {β γ : Type} {ms : List (String × β)}

theorem sortByName_cons (m : String × β) (ms : List (String × β)) :
    sortByName Prod.fst (m :: ms) = insertByName Prod.fst m (sortByName Prod.fst ms) :=
  rfl

theorem insertByName_map (f : β → γ) (m : String × β) (ms : List (String × β)) :
    insertByName Prod.fst (m.1, f m.2) (ms.map fun m ↦ (m.1, f m.2)) =
      (insertByName Prod.fst m ms).map fun m ↦ (m.1, f m.2) := by
  induction ms with
  | nil => rfl
  | cons e ms ih =>
    rw [List.map_cons, insertByName, insertByName, ih]
    split <;> rfl

/-- The values may be changed before or after sorting. -/
theorem sortByName_map (f : β → γ) (ms : List (String × β)) :
    sortByName Prod.fst (ms.map fun m ↦ (m.1, f m.2)) =
      (sortByName Prod.fst ms).map fun m ↦ (m.1, f m.2) := by
  induction ms with
  | nil => rfl
  | cons m ms ih => rw [List.map_cons, sortByName_cons, ih, insertByName_map, sortByName_cons]

theorem pairwise_insertByName {m : String × β} (h : ms.Pairwise fun a b ↦ a.1 ≤ b.1) :
    (insertByName Prod.fst m ms).Pairwise fun a b ↦ a.1 ≤ b.1 := by
  induction ms with
  | nil => exact List.pairwise_singleton _ m
  | cons e ms ih =>
    rw [insertByName]
    split
    · next hle =>
      refine List.pairwise_cons.mpr ⟨fun a ha ↦ ?_, h⟩
      rcases List.mem_cons.mp ha with rfl | ha
      · exact hle
      · exact String.le_trans hle (List.rel_of_pairwise_cons h ha)
    · next hlt =>
      refine List.pairwise_cons.mpr ⟨fun a ha ↦ ?_, ih h.of_cons⟩
      rcases List.mem_cons.mp ((insertByName_perm m ms).mem_iff.mp ha) with rfl | ha
      · exact (String.le_total _ _).resolve_left hlt
      · exact List.rel_of_pairwise_cons h ha

theorem pairwise_sortByName (ms : List (String × β)) :
    (sortByName Prod.fst ms).Pairwise fun a b ↦ a.1 ≤ b.1 := by
  induction ms with
  | nil => exact List.Pairwise.nil
  | cons m ms ih => exact pairwise_insertByName ih

theorem sortByName_of_pairwise (h : ms.Pairwise fun a b ↦ a.1 ≤ b.1) :
    sortByName Prod.fst ms = ms := by
  induction ms with
  | nil => rfl
  | cons m ms ih =>
    rw [sortByName_cons, ih h.of_cons]
    cases ms with
    | nil => rfl
    | cons e ms => exact if_pos (List.rel_of_pairwise_cons h List.mem_cons_self)

theorem sortByName_sortByName (ms : List (String × β)) :
    sortByName Prod.fst (sortByName Prod.fst ms) = sortByName Prod.fst ms :=
  sortByName_of_pairwise (pairwise_sortByName ms)

end Text

namespace Json

variable {v w : Value} {vs ws : List Value} {ms ns : List (String × Value)} {depth : Nat}
  {x y : List Char}

/-! ### Strings -/

theorem readHex4_append {cs rest : List Char} {k : Nat} (h : readHex4 cs = some (k, [])) :
    readHex4 (cs ++ rest) = some (k, rest) := by
  match cs, h with
  | a :: b :: c :: d :: cs, h =>
    simp only [readHex4, Option.bind_eq_bind, Option.bind_eq_some_iff, Option.pure_def,
      Option.some.injEq, Prod.mk.injEq, List.cons_append] at h ⊢
    obtain ⟨i, hi, j, hj, k, hk, l, hl, heq, rfl⟩ := h
    exact ⟨i, hi, j, hj, k, hk, l, hl, heq, rfl⟩

theorem readHex4_hexDigits : ∀ k < 0x20, readHex4 (Text.hexDigits 4 k).toList = some (k, []) := by
  decide +kernel

/-- The reader takes an escaped character for the character. -/
theorem readString_escapeChar (n : Nat) (acc : List Char) (c : Char) (rest : List Char) :
    readString (n + 1) acc ((escapeChar c).toList ++ rest) = readString n (c :: acc) rest := by
  by_cases hshort : c = '"' ∨ c = '\\' ∨ c = '\x08' ∨ c = '\t' ∨ c = '\n' ∨ c = '\x0c' ∨ c = '\r'
  · rcases hshort with rfl | rfl | rfl | rfl | rfl | rfl | rfl <;> rfl
  · simp only [not_or] at hshort
    obtain ⟨hquote, hback, hb, ht, hn, hf, hr⟩ := hshort
    rw [escapeChar, if_neg hquote, if_neg hback, if_neg hb, if_neg ht, if_neg hn, if_neg hf,
      if_neg hr]
    split
    · next hcontrol =>
      have hunit : readEscapedUnit ((Text.hexDigits 4 c.toNat).toList ++ rest) =
          some (c, rest) := by
        have hhigh : ¬(0xD800 ≤ c.toNat ∧ c.toNat < 0xDC00) := by omega
        have hlow : ¬(0xDC00 ≤ c.toNat ∧ c.toNat < 0xE000) := by omega
        simp only [readEscapedUnit, readHex4_append (readHex4_hexDigits c.toNat hcontrol),
          Option.bind_eq_bind, Option.bind_some, if_neg hhigh, if_neg hlow, Char.ofNat_toNat]
      rw [String.toList_append]
      change readString (n + 1) acc ('\\' :: 'u' :: ((Text.hexDigits 4 c.toNat).toList ++ rest)) = _
      rw [readString, hunit]
    · rw [Char.toString, String.toList_singleton, List.singleton_append, readString]
      · exact hquote
      · exact fun _ h _ ↦ hback h
      · exact fun _ _ h _ ↦ hback h

theorem toList_quote (s : String) :
    (quote s).toList = '"' :: (s.toList.flatMap (fun c ↦ (escapeChar c).toList) ++ ['"']) := by
  simp only [quote, String.toList_append, String.toList_join, List.flatMap_map]
  rfl

/-- The reader ends a string where the writer ended it. -/
theorem readString_quote (s : String) (rest : List Char) {n : Nat} (hn : s.length < n) :
    readString n [] ((quote s).toList.tail ++ rest) = some (s, rest) := by
  have hread : ∀ (cs acc : List Char) (n : Nat), cs.length < n →
      readString n acc (cs.flatMap (fun c ↦ (escapeChar c).toList) ++ '"' :: rest) =
        some (String.ofList (acc.reverse ++ cs), rest) := by
    intro cs
    induction cs with
    | nil =>
      intro acc n hn
      obtain ⟨n, rfl⟩ := Nat.exists_eq_succ_of_ne_zero (Nat.ne_zero_of_lt hn)
      rw [List.append_nil]
      rfl
    | cons c cs ih =>
      intro acc n hn
      obtain ⟨n, rfl⟩ := Nat.exists_eq_succ_of_ne_zero (Nat.ne_zero_of_lt hn)
      rw [List.flatMap_cons, List.append_assoc, readString_escapeChar,
        ih (c :: acc) n (Nat.lt_of_succ_lt_succ hn), List.reverse_cons, List.append_assoc,
        List.singleton_append]
  rw [toList_quote, List.tail_cons, List.append_assoc, List.singleton_append, hread _ _ _ hn,
    List.reverse_nil, List.nil_append, String.ofList_toList]

/-- A written string is cut out of a longer text by its own characters. -/
theorem quote_append_inj {s t : String} (h : (quote s).toList ++ x = (quote t).toList ++ y) :
    s = t ∧ x = y := by
  have htails : (quote s).toList.tail ++ x = (quote t).toList.tail ++ y := by
    rw [toList_quote, toList_quote, List.cons_append, List.cons_append] at h
    rw [toList_quote, toList_quote]
    exact (List.cons.inj h).2
  have hs := readString_quote s x (n := max s.length t.length + 1) (by omega)
  rw [htails, readString_quote t y (by omega), Option.some.injEq, Prod.mk.injEq] at hs
  exact ⟨hs.1.symm, hs.2.symm⟩

/-! ### Blocks of items -/

/-- If both texts begin the same text, they are the same. -/
def SameStart (s t : String) : Prop :=
  ∀ x y, s.toList ++ x = t.toList ++ y → s = t

/-- What follows an item in a block: the other items, and the closing bracket. -/
def blockRest (closing : Char) (depth : Nat) : List String → List Char
  | [] => (newline depth).toList ++ [closing]
  | t :: ts => ',' :: ((newline (depth + 1)).toList ++ (t.toList ++ blockRest closing depth ts))

theorem toList_block_nil (opening closing : Char) :
    (block opening.toString closing.toString depth []).toList = [opening, closing] := by
  simp [block]

theorem toList_block_cons (opening closing : Char) (t : String) (ts : List String) :
    (block opening.toString closing.toString depth (t :: ts)).toList =
      opening :: ((newline (depth + 1)).toList ++ (t.toList ++ blockRest closing depth ts)) := by
  have hrest : ∀ (t : String) (ts : List String),
      (("," ++ newline (depth + 1)).intercalate (t :: ts)).toList
        ++ ((newline depth).toList ++ [closing]) = t.toList ++ blockRest closing depth ts := by
    intro t ts
    induction ts generalizing t with
    | nil => rw [String.intercalate_singleton, blockRest]
    | cons u ts ih =>
      rw [String.intercalate_cons_cons, String.toList_append, List.append_assoc, ih u]
      simp [blockRest]
  simp [block, ← hrest]

theorem blockRest_inj {closing : Char} {ss ts : List String}
    (h : blockRest closing depth ss ++ x = blockRest closing depth ts ++ y)
    (hstart : ∀ s ∈ ss, ∀ t ∈ ts, SameStart s t) : ss = ts ∧ x = y := by
  induction ss generalizing ts with
  | nil =>
    cases ts with
    | nil => exact ⟨rfl, List.append_cancel_left h⟩
    | cons t ts =>
      refine absurd h ?_
      simp [blockRest, newline]
  | cons s ss ih =>
    cases ts with
    | nil =>
      refine absurd h ?_
      simp [blockRest, newline]
    | cons t ts =>
      simp only [blockRest, List.cons_append, List.append_assoc, List.cons.injEq, true_and,
        List.append_cancel_left_eq] at h
      obtain rfl := hstart s List.mem_cons_self t List.mem_cons_self _ _ h
      obtain ⟨rfl, hxy⟩ := ih (List.append_cancel_left h) fun s hs t ht ↦
        hstart s (List.mem_cons_of_mem _ hs) t (List.mem_cons_of_mem _ ht)
      exact ⟨rfl, hxy⟩

/-- A block is cut out of a longer text if its items are. -/
theorem block_append_inj {opening closing : Char} (hclosing : closing ≠ '\n') {ss ts : List String}
    (h : (block opening.toString closing.toString depth ss).toList ++ x =
      (block opening.toString closing.toString depth ts).toList ++ y)
    (hstart : ∀ s ∈ ss, ∀ t ∈ ts, SameStart s t) : ss = ts ∧ x = y := by
  cases ss with
  | nil =>
    cases ts with
    | nil => exact ⟨rfl, List.append_cancel_left h⟩
    | cons t ts =>
      rw [toList_block_nil, toList_block_cons] at h
      simp [newline, hclosing] at h
  | cons s ss =>
    cases ts with
    | nil =>
      rw [toList_block_nil, toList_block_cons] at h
      simp [newline, hclosing.symm] at h
    | cons t ts =>
      -- the first item follows the bracket as every other one follows a comma
      have hrest : blockRest closing depth (s :: ss) ++ x =
          blockRest closing depth (t :: ts) ++ y := by
        rw [toList_block_cons, toList_block_cons] at h
        rw [blockRest, blockRest]
        exact congrArg (',' :: ·) (List.cons.inj h).2
      exact blockRest_inj hrest hstart

/-! ### Documents of texts -/

mutual

/-- The document is made of texts alone: there is no number and no truth value in it. No object has a
key twice. -/
def Value.IsTextual : Value → Prop
  | .null | .str _ => True
  | .bool _ | .int _ | .float _ => False
  | .list vs => AreTextual vs
  | .object ms => (ms.map Prod.fst).Nodup ∧ HaveTextual ms

/-- The items are made of texts. -/
def AreTextual : List Value → Prop
  | [] => True
  | v :: vs => v.IsTextual ∧ AreTextual vs

/-- The values of the members are made of texts. -/
def HaveTextual : List (String × Value) → Prop
  | [] => True
  | (_, v) :: ms => v.IsTextual ∧ HaveTextual ms

end

theorem areTextual_iff : AreTextual vs ↔ ∀ v ∈ vs, v.IsTextual := by
  induction vs with
  | nil => exact ⟨fun _ _ h ↦ absurd h List.not_mem_nil, fun _ ↦ trivial⟩
  | cons v vs ih => rw [AreTextual, ih, List.forall_mem_cons]

theorem haveTextual_iff : HaveTextual ms ↔ ∀ m ∈ ms, m.2.IsTextual := by
  induction ms with
  | nil => exact ⟨fun _ _ h ↦ absurd h List.not_mem_nil, fun _ ↦ trivial⟩
  | cons m ms ih => rw [HaveTextual, ih, List.forall_mem_cons]

theorem writeItems_eq_map (depth : Nat) (vs : List Value) :
    writeItems depth vs = vs.map (Value.write depth) := by
  induction vs with
  | nil => rfl
  | cons v vs ih => rw [writeItems, ih, List.map_cons]

theorem writeMembers_eq_map (depth : Nat) (ms : List (String × Value)) :
    writeMembers depth ms = ms.map fun m ↦ (m.1, m.2.write depth) := by
  induction ms with
  | nil => rfl
  | cons m ms ih => rw [writeMembers, ih, List.map_cons]

theorem sortMembers_eq_map (ms : List (String × Value)) :
    sortMembers ms = ms.map fun m ↦ (m.1, m.2.sortKeys) := by
  induction ms with
  | nil => rfl
  | cons m ms ih => rw [sortMembers, ih, List.map_cons]

/-- A written member. -/
def memberText (depth : Nat) (m : String × Value) : String :=
  quote m.1 ++ ": " ++ m.2.write depth

theorem write_list (depth : Nat) (vs : List Value) :
    (Value.list vs).write depth =
      block '['.toString ']'.toString depth (vs.map (Value.write (depth + 1))) := by
  rw [Value.write, writeItems_eq_map]
  rfl

theorem write_object (depth : Nat) (ms : List (String × Value)) :
    (Value.object ms).write depth = block '\x7b'.toString '\x7d'.toString depth
      ((Text.sortByName Prod.fst ms).map (memberText (depth + 1))) := by
  rw [Value.write, writeMembers_eq_map]
  change block _ _ depth ((Text.sortByName Prod.fst _).map _) = _
  rw [Text.sortByName_map (Value.write (depth + 1)), List.map_map]
  rfl

mutual

/-- Sorting the members leaves the text as it is. -/
theorem write_sortKeys : ∀ (v : Value) (depth : Nat), v.sortKeys.write depth = v.write depth
  | .null, _ | .bool _, _ | .int _, _ | .float _, _ | .str _, _ => rfl
  | .list vs, depth => by
    rw [Value.sortKeys, Value.write, writeItems_sortItems vs, Value.write]
  | .object ms, depth => by
    rw [Value.sortKeys, Value.write, Value.write, ← writeMembers_sortMembers ms,
      writeMembers_eq_map, writeMembers_eq_map]
    change block _ _ depth ((Text.sortByName Prod.fst _).map _) =
      block _ _ depth ((Text.sortByName Prod.fst _).map _)
    rw [Text.sortByName_map (Value.write (depth + 1)),
      Text.sortByName_map (Value.write (depth + 1)), Text.sortByName_sortByName]

theorem writeItems_sortItems : ∀ (vs : List Value) (depth : Nat),
    writeItems depth (sortItems vs) = writeItems depth vs
  | [], _ => rfl
  | v :: vs, depth => by
    rw [sortItems, writeItems, write_sortKeys v, writeItems_sortItems vs, writeItems]

theorem writeMembers_sortMembers : ∀ (ms : List (String × Value)) (depth : Nat),
    writeMembers depth (sortMembers ms) = writeMembers depth ms
  | [], _ => rfl
  | (k, v) :: ms, depth => by
    rw [sortMembers, writeMembers, write_sortKeys v, writeMembers_sortMembers ms, writeMembers]

end

/-- The first character of a written document of texts. -/
def Value.opening : Value → Char
  | .null => 'n'
  | .str _ => '"'
  | .list _ => '['
  | .object _ => '\x7b'
  | _ => '0'

theorem exists_write_cons (hv : v.IsTextual) (depth : Nat) :
    ∃ rest, (v.write depth).toList = v.opening :: rest := by
  have hblock : ∀ (opening closing : Char) ts,
      ∃ rest, (block opening.toString closing.toString depth ts).toList = opening :: rest := by
    intro opening closing ts
    cases ts with
    | nil => exact ⟨_, toList_block_nil opening closing⟩
    | cons t ts => exact ⟨_, toList_block_cons opening closing t ts⟩
  cases v with
  | null => exact ⟨"ull".toList, by rw [Value.write]; rfl⟩
  | str s => exact ⟨_, by rw [Value.write, toList_quote]; rfl⟩
  | list vs => rw [write_list]; exact hblock _ _ _
  | object ms => rw [write_object]; exact hblock _ _ _
  | _ => exact hv.elim

theorem opening_eq_of_append (hv : v.IsTextual) (hw : w.IsTextual)
    (h : (v.write depth).toList ++ x = (w.write depth).toList ++ y) : v.opening = w.opening := by
  obtain ⟨_, hv'⟩ := exists_write_cons hv depth
  obtain ⟨_, hw'⟩ := exists_write_cons hw depth
  rw [hv', hw'] at h
  exact (List.cons.inj h).1

theorem map_eq_map_of_imp {α β γ : Type} {f : α → β} {g : α → γ} {as bs : List α}
    (h : as.map f = bs.map f) (hfg : ∀ a ∈ as, ∀ b ∈ bs, f a = f b → g a = g b) :
    as.map g = bs.map g := by
  induction as generalizing bs with
  | nil => rw [List.map_nil, List.map_eq_nil_iff.mp h.symm, List.map_nil]
  | cons a as ih =>
    cases bs with
    | nil => cases h
    | cons b bs =>
      obtain ⟨hab, hrest⟩ := List.cons.inj h
      rw [List.map_cons, List.map_cons, hfg a List.mem_cons_self b List.mem_cons_self hab]
      exact congrArg (g b :: ·) (ih hrest fun a ha b hb ↦
        hfg a (List.mem_cons_of_mem _ ha) b (List.mem_cons_of_mem _ hb))

/-- The document is cut out of a text that begins with it, up to the order of its members. -/
def Value.IsCut (v : Value) : Prop :=
  ∀ (w : Value) (depth : Nat) (x y : List Char), w.IsTextual →
    (v.write depth).toList ++ x = (w.write depth).toList ++ y → v.Agrees w ∧ x = y

namespace Value.IsCut

theorem sameStart (hv : v.IsCut) (hw : w.IsTextual) (depth : Nat) :
    SameStart (v.write depth) (w.write depth) := by
  intro x y h
  obtain ⟨_, rfl⟩ := hv w depth x y hw h
  exact String.toList_inj.mp (List.append_cancel_right h)

theorem agrees_of_write_eq (hv : v.IsCut) (hw : w.IsTextual)
    (h : v.write depth = w.write depth) : v.Agrees w :=
  (hv w depth [] [] hw (congrArg (String.toList · ++ []) h)).1

theorem null : Value.null.IsCut := by
  intro w depth x y hw h
  have hopening := opening_eq_of_append (v := .null) trivial hw h
  cases w with
  | null => exact ⟨rfl, List.append_cancel_left h⟩
  | _ => simp [Value.opening] at hopening

theorem str (s : String) : (Value.str s).IsCut := by
  intro w depth x y hw h
  have hopening := opening_eq_of_append (v := .str s) trivial hw h
  cases w with
  | str t =>
    rw [Value.write, Value.write] at h
    obtain ⟨rfl, hxy⟩ := quote_append_inj h
    exact ⟨rfl, hxy⟩
  | _ => simp [Value.opening] at hopening

theorem list (hvs : (Value.list vs).IsTextual) (h : ∀ v ∈ vs, v.IsCut) : (Value.list vs).IsCut := by
  intro w depth x y hw heq
  have hopening := opening_eq_of_append hvs hw heq
  cases w with
  | list ws =>
    have hws := areTextual_iff.mp hw
    rw [write_list, write_list] at heq
    obtain ⟨htexts, hxy⟩ := block_append_inj (by decide) heq <| by
      intro s hs t ht
      obtain ⟨v, hv, rfl⟩ := List.mem_map.mp hs
      obtain ⟨w, hw, rfl⟩ := List.mem_map.mp ht
      exact (h v hv).sameStart (hws w hw) _
    refine ⟨?_, hxy⟩
    rw [Value.Agrees, Value.sortKeys, Value.sortKeys, sortItems_eq_map, sortItems_eq_map]
    exact congrArg Value.list <| map_eq_map_of_imp htexts fun v hv w hw htext ↦
      (h v hv).agrees_of_write_eq (hws w hw) htext
  | _ => simp [Value.opening] at hopening

/-- A member is cut out if its value is: the key comes first. -/
theorem member {m n : String × Value} (hm : m.2.IsCut) (hn : n.2.IsTextual)
    (h : (memberText depth m).toList ++ x = (memberText depth n).toList ++ y) :
    m.1 = n.1 ∧ m.2.Agrees n.2 ∧ x = y := by
  simp only [memberText, String.toList_append, List.append_assoc] at h
  obtain ⟨hkey, hrest⟩ := quote_append_inj h
  exact ⟨hkey, hm n.2 depth x y hn (List.append_cancel_left hrest)⟩

theorem object (hms : (Value.object ms).IsTextual) (h : ∀ m ∈ ms, m.2.IsCut) :
    (Value.object ms).IsCut := by
  intro w depth x y hw heq
  have hopening := opening_eq_of_append hms hw heq
  cases w with
  | object ns =>
    have hns : ∀ n ∈ Text.sortByName Prod.fst ns, n.2.IsTextual := fun n hn ↦
      haveTextual_iff.mp hw.2 n ((Text.sortByName_perm ns).mem_iff.mp hn)
    replace h : ∀ m ∈ Text.sortByName Prod.fst ms, m.2.IsCut := fun m hm ↦
      h m ((Text.sortByName_perm ms).mem_iff.mp hm)
    rw [write_object, write_object] at heq
    obtain ⟨htexts, hxy⟩ := block_append_inj (by decide) heq <| by
      intro s hs t ht x y hst
      obtain ⟨m, hm, rfl⟩ := List.mem_map.mp hs
      obtain ⟨n, hn, rfl⟩ := List.mem_map.mp ht
      obtain ⟨-, -, rfl⟩ := member (h m hm) (hns n hn) hst
      exact String.toList_inj.mp (List.append_cancel_right hst)
    refine ⟨?_, hxy⟩
    rw [Value.Agrees, Value.sortKeys, Value.sortKeys, sortMembers_eq_map, sortMembers_eq_map,
      Text.sortByName_map Value.sortKeys, Text.sortByName_map Value.sortKeys]
    refine congrArg Value.object <| map_eq_map_of_imp htexts fun m hm n hn htext ↦ ?_
    obtain ⟨hkey, hvalue, -⟩ := member (x := []) (y := []) (h m hm) (hns n hn)
      (congrArg (String.toList · ++ []) htext)
    exact Prod.ext hkey hvalue
  | _ => simp [Value.opening] at hopening

end Value.IsCut

mutual

/-- Every document of texts is cut out of what begins with it. -/
theorem Value.IsTextual.isCut : ∀ {v : Value}, v.IsTextual → v.IsCut
  | .null, _ => .null
  | .str s, _ => .str s
  | .list _, h => .list h (AreTextual.isCut h)
  | .object _, h => .object h (HaveTextual.isCut h.2)
  | .bool _, h | .int _, h | .float _, h => h.elim

theorem AreTextual.isCut : ∀ {vs : List Value}, AreTextual vs → ∀ v ∈ vs, v.IsCut
  | [], _ => nofun
  | _ :: _, h => List.forall_mem_cons.mpr ⟨h.1.isCut, AreTextual.isCut h.2⟩

theorem HaveTextual.isCut : ∀ {ms : List (String × Value)}, HaveTextual ms → ∀ m ∈ ms, m.2.IsCut
  | [], _ => nofun
  | (_, _) :: _, h => List.forall_mem_cons.mpr ⟨h.1.isCut, HaveTextual.isCut h.2⟩

end

/-- A way of writing tells documents of texts apart, up to the order of their members. -/
def Separates {α : Type} (write : Value → α) : Prop :=
  ∀ v w : Value, v.IsTextual → w.IsTextual → (write v = write w ↔ v.Agrees w)

/-- Documents of texts have the same text exactly when they agree. -/
theorem separates_text : Separates Value.text := by
  refine fun v w hv hw ↦ ⟨hv.isCut.agrees_of_write_eq hw, fun h ↦ ?_⟩
  calc v.text = v.sortKeys.text := (write_sortKeys v 0).symm
    _ = w.sortKeys.text := congrArg Value.text h
    _ = w.text := write_sortKeys w 0

end Json

end DeclClosure
