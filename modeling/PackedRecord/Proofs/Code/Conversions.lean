import PackedRecord.Proofs.Code.ReadBack
import PackedRecord.Proofs.Record.RoundTrip

/-! # Conversions — from the order of a big-endian host

    On a big-endian host every number of several bytes is first read in the
    order of the host and then assigned anew.  `run?_ofEntry?` is one
    assignment: the field of its entry turns from the big-endian value of the
    entry's bytes into the little-endian one, and every other field stays.
    `run_assignments` is the whole run: the invariant is that exactly the entries
    passed so far are turned, and entries without a byte order have nothing
    to turn. -/

namespace PackedRecord.Code

open Layout (Entry FieldName NameChar)

/-! ## Identifiers -/

/-- Field names are names of the language, unless it reserves them. -/
theorem isPlainName_of_fieldName {name : String} (h : FieldName name) :
    isPlainName name.toList = true := by
  obtain ⟨⟨c, rest, hname, hstart, hrest⟩, -⟩ := h
  rw [hname, isPlainName, Bool.and_eq_true, List.all_eq_true]
  exact ⟨(Layout.isNameStart_iff c).mpr hstart,
    fun d hd => (Layout.isNameChar_iff d).mpr (hrest d hd)⟩

/-- The mark of an identifier stands in no field name. -/
theorem mark_not_mem {name : String} (h : FieldName name) : '#' ∉ name.toList := by
  obtain ⟨⟨c, rest, hname, hstart, hrest⟩, -⟩ := h
  have hmark : ¬ NameChar '#' := by
    intro hchar
    exact absurd ((Layout.isNameChar_iff '#').mpr hchar) (by decide)
  rw [hname, List.mem_cons]
  rintro (rfl | hmem)
  · exact hmark (Or.inl hstart)
  · exact hmark (hrest '#' hmem)

/-- Every reserved word is escaped, apart from those that cannot be. -/
theorem mem_keywords_or_pathWords :
    ∀ word ∈ reservedWords, word ∈ keywords ∨ word ∈ pathWords := by
  decide

/-- **FIELD NAMES ARE IDENTIFIERS** in generated code: those that would be words
    of the language are escaped, and the words that cannot be name no field. -/
theorem isIdent_identOf {name : String} (h : FieldName name) : IsIdent (identOf name) := by
  have hplain := isPlainName_of_fieldName h
  have hpath : name ∉ pathWords := h.free
  rw [IsIdent, identOf]
  split
  · rw [String.toList_append]
    show (isPlainName name.toList && !pathWords.contains (String.ofList name.toList)) = true
    rw [String.ofList_toList, hplain]
    simpa using hpath
  · next hkeyword =>
      have hreserved : name ∉ reservedWords := by
        intro hmem
        rcases mem_keywords_or_pathWords name hmem with hescaped | hmem
        · exact hkeyword (List.contains_iff_mem.mpr hescaped)
        · exact hpath hmem
      rw [isIdent.eq_def]
      split
      · -- without the mark, no name looks marked
        next w hw =>
          have hmark := mark_not_mem h
          rw [hw] at hmark
          exact absurd (List.mem_cons_of_mem _ List.mem_cons_self) hmark
      · rw [String.ofList_toList, hplain]
        simpa using hreserved

/-- Field names are words in generated code, escaped or not. -/
theorem isWord_identOf {name : String} (h : FieldName name) : IsWord (identOf name) :=
  (isIdent_identOf h).isWord

/-- No field name looks like another that is escaped. -/
theorem identOf_inj {a b : String} (ha : FieldName a) (hb : FieldName b)
    (h : identOf a = identOf b) : a = b := by
  have hmark : ∀ {x y : String}, FieldName y → "r#" ++ x ≠ y := by
    intro x y hy heq
    refine mark_not_mem hy ?_
    rw [← heq, String.toList_append]
    exact List.mem_append_left _ (by decide)
  rw [identOf, identOf] at h
  split at h <;> split at h
  · exact (String.append_right_inj "r#").mp h
  · exact absurd h (hmark hb)
  · exact absurd h.symm (hmark ha)
  · exact h

/-! ## A structure as a function of its entries -/

/-- What every entry has, by its identifier; with values, the fields of a
    structure. -/
def fieldsOf {α : Type} (entries : List Entry) (value : Entry → α) : List (String × α) :=
  entries.map fun e => (identOf e.name, value e)

/-- Entries that can be told apart by their identifiers. -/
def Distinct (entries : List Entry) : Prop :=
  (entries.map fun e => identOf e.name).Nodup

/-- In a layout that was built, no two entries share an identifier. -/
theorem distinct_of_packed {layout : Layout} (h : Layout.Packed layout) :
    Distinct layout.entries := by
  have hinj : ∀ a ∈ layout.entries.map (·.name), ∀ b ∈ layout.entries.map (·.name),
      identOf a = identOf b → a = b := by
    intro a ha b hb
    obtain ⟨d, hd, rfl⟩ := List.mem_map.mp ha
    obtain ⟨e, he, rfl⟩ := List.mem_map.mp hb
    exact identOf_inj (h.sound d hd).name (h.sound e he).name
  have hnodup := List.Nodup.map_on hinj h.distinct
  rwa [List.map_map] at hnodup

/-- Under the identifier of an entry stands what the entry has. -/
theorem lookup_fieldsOf {α : Type} {entries : List Entry} (h : Distinct entries)
    (value : Entry → α) {d : Entry} (hd : d ∈ entries) :
    (fieldsOf entries value).lookup (identOf d.name) = some (value d) := by
  induction entries with
  | nil => exact nomatch hd
  | cons e rest ih =>
      obtain ⟨hfresh, hrest⟩ := List.nodup_cons.mp h
      show List.lookup _ ((identOf e.name, value e) :: fieldsOf rest value) = _
      rw [List.lookup_cons]
      rcases List.mem_cons.mp hd with rfl | hd
      · rw [beq_self_eq_true]
      · have hne : identOf d.name ≠ identOf e.name := by
          intro heq
          exact hfresh (List.mem_map.mpr ⟨d, hd, heq⟩)
        rw [beq_eq_false_iff_ne.mpr hne]
        exact ih hrest hd

/-- To replace the field of an entry is to change what that entry has, and no
    other. -/
theorem replace?_fieldsOf {entries : List Entry} (h : Distinct entries) (value : Entry → Value)
    {d : Entry} (hd : d ∈ entries) (v : Value) :
    Fields.replace? (fieldsOf entries value) (identOf d.name) v
      = some (fieldsOf entries fun e => if e = d then v else value e) := by
  have hfound : ((fieldsOf entries value).lookup (identOf d.name)).isSome = true := by
    rw [lookup_fieldsOf h value hd]
    rfl
  rw [Fields.replace?, if_pos hfound, fieldsOf, fieldsOf, List.map_map]
  refine congrArg some (List.map_congr_left fun e he => ?_)
  show (identOf e.name, if identOf e.name = identOf d.name then v else value e) = _
  by_cases heq : e = d
  · rw [if_pos heq, if_pos (congrArg (fun e : Entry => identOf e.name) heq)]
  · rw [if_neg heq, if_neg fun hident => heq (List.inj_on_of_nodup_map h he hd hident)]

/-! ## One assignment -/

/-- On a big-endian host, a conversion turns a number read in big-endian order
    into the one read in little-endian order. -/
theorem eval?_of_scalar? {fields : Fields} {c : Conversion} {chunk : List UInt8}
    (hlength : chunk.length = c.kind.byteWidth)
    (h : c.place.scalar? fields = some (.ofBytes .big c.kind chunk)) :
    c.eval? .big fields = some (.scalar (.ofBytes .little c.kind chunk)) := by
  rw [Conversion.eval?, h]
  show (if c.kind = c.kind then some (Value.scalar (Scalar.ofBytes .big c.kind chunk).swapBytes)
    else none) = _
  rw [if_pos rfl, Scalar.swapBytes_ofBytes_big hlength]

theorem scalar?_field {fields : Fields} {ident : String} {s : Scalar}
    (h : fields.lookup ident = some (.scalar s)) :
    (Place.field ident).scalar? fields = some s := by
  rw [Place.scalar?, h]
  rfl

theorem scalar?_element {fields : Fields} {ident : String} {items : List Value} {i : Nat}
    {s : Scalar} (h : fields.lookup ident = some (.array items))
    (hitem : items[i]? = some (.scalar s)) :
    (Place.element ident i).scalar? fields = some s := by
  simp only [Place.scalar?, h, Value.asArray?, Option.bind_eq_bind, Option.bind_some, hitem]

/-- **ONE ASSIGNMENT**: the field of its entry turns, every other field stays. -/
theorem run?_ofEntry? {entries : List Entry} (h : Distinct entries) {value : Entry → Value}
    {d : Entry} (hd : d ∈ entries) {chunk : List UInt8} (hlength : chunk.length = d.size)
    (hcount : 1 ≤ d.count) (hvalue : value d = d.valueOf .big chunk) {a : Assignment}
    (ha : Assignment.ofEntry? d = some a) :
    a.run? .big (fieldsOf entries value)
      = some (fieldsOf entries fun e => if e = d then d.valueOf .little chunk else value e) := by
  have hlookup := lookup_fieldsOf h value hd
  rw [Assignment.ofEntry?] at ha
  by_cases harray : 1 < d.count
  · rw [Entry.shape_of_isArray harray] at ha
    rw [hvalue, Entry.valueOf_eq_map_slice harray] at hlookup
    rw [Entry.valueOf_eq_map_slice harray]
    split at ha
    · obtain rfl := Option.some.inj ha
      -- each element is swapped by itself
      have hitem : ∀ i ∈ List.range d.count,
          Conversion.eval? .big (fieldsOf entries value) ⟨d.kind, .element (identOf d.name) i⟩
            = pure (Value.scalar (.ofBytes .little d.kind
                (slice chunk (i * d.kind.byteWidth) d.kind.byteWidth))) := by
        intro i hi
        have hlast := d.element_le (List.mem_range.mp hi)
        refine eval?_of_scalar? (length_slice (by omega)) (scalar?_element hlookup ?_)
        rw [List.getElem?_map, List.getElem?_range (List.mem_range.mp hi)]
        rfl
      have hitems := Outcome.mapM_eq_pure hitem
      rw [Assignment.run?, List.mapM_map]
      show (do Fields.replace? (fieldsOf entries value) _ (.array (← (List.range d.count).mapM fun i =>
        Conversion.eval? .big (fieldsOf entries value) ⟨d.kind, .element (identOf d.name) i⟩))) = _
      rw [hitems]
      exact replace?_fieldsOf h value hd _
    · exact nomatch ha
  · have hone := hlength.trans (d.size_of_not_isArray hcount harray)
    rw [Entry.shape_of_not_isArray harray] at ha
    rw [hvalue, Entry.valueOf_of_not_isArray harray] at hlookup
    rw [Entry.valueOf_of_not_isArray harray]
    split at ha
    · obtain rfl := Option.some.inj ha
      have hitem : Conversion.eval? .big (fieldsOf entries value)
            ⟨d.kind, .field (identOf d.name)⟩
          = some (.scalar (.ofBytes .little d.kind chunk)) :=
        eval?_of_scalar? hone (scalar?_field hlookup)
      rw [Assignment.run?, hitem]
      exact replace?_fieldsOf h value hd _
    · exact nomatch ha

/-- What is not converted reads the same in either order. -/
theorem valueOf_of_ofEntry?_eq_none {e : Entry} (h : Assignment.ofEntry? e = none)
    {chunk : List UInt8} (hlength : chunk.length = e.size) (hcount : 1 ≤ e.count) :
    e.valueOf .big chunk = e.valueOf .little chunk := by
  have hsize : e.size = e.kind.byteWidth * e.count := rfl
  have hwidth : e.kind.byteWidth = 1 := by
    have hpos := e.kind.byteWidth_pos
    rw [Assignment.ofEntry?] at h
    split at h
    · split at h <;> exact nomatch h
    · next horder =>
        rw [Entry.hasByteOrder, decide_eq_true_eq] at horder
        omega
  by_cases harray : 1 < e.count
  · rw [Entry.valueOf_of_isArray harray, Entry.valueOf_of_isArray harray]
    refine congrArg Value.array (List.map_congr_left fun bytes hbytes => congrArg Value.scalar ?_)
    have hone := length_of_mem_elements (hlength.trans hsize) bytes hbytes
    exact Scalar.ofBytes_of_byteWidth_one hwidth hone .big .little
  · have hone := hlength.trans (e.size_of_not_isArray hcount harray)
    rw [Entry.valueOf_of_not_isArray harray, Entry.valueOf_of_not_isArray harray]
    exact congrArg Value.scalar (Scalar.ofBytes_of_byteWidth_one hwidth hone .big .little)

/-! ## The whole run -/

/-- The run through the entries that are still to pass: those turn, whatever
    the fields of the others hold. -/
theorem run_assignments {entries : List Entry} (h : Distinct entries)
    {chunk : Entry → List UInt8} (hsound : ∀ e ∈ entries, (chunk e).length = e.size ∧ 1 ≤ e.count)
    {passing : List Entry} :
    ∀ value : Entry → Value, (∀ d ∈ passing, d ∈ entries) → passing.Nodup →
      (∀ d ∈ passing, value d = d.valueOf .big (chunk d)) →
      (passing.filterMap Assignment.ofEntry?).foldlM (Assignment.run? .big)
          (fieldsOf entries value)
        = some (fieldsOf entries fun e =>
            if e ∈ passing then e.valueOf .little (chunk e) else value e) := by
  induction passing with
  | nil =>
      intro value _ _ _
      simp
  | cons d passing ih =>
      intro value hmem hnodup hvalue
      obtain ⟨hfresh, hnodup⟩ := List.nodup_cons.mp hnodup
      have hd := hmem d List.mem_cons_self
      -- what passing `d` and then the rest leaves is what passing all of them leaves
      have hturned : ∀ e, (if e ∈ passing then e.valueOf .little (chunk e)
            else if e = d then d.valueOf .little (chunk d) else value e)
          = if e ∈ d :: passing then e.valueOf .little (chunk e) else value e := by
        intro e
        by_cases hpassing : e ∈ passing
        · rw [if_pos hpassing, if_pos (List.mem_cons_of_mem d hpassing)]
        · by_cases heq : e = d
          · rw [if_neg hpassing, if_pos heq, heq, if_pos List.mem_cons_self]
          · rw [if_neg hpassing, if_neg heq, if_neg]
            exact fun hmem => (List.mem_cons.mp hmem).elim heq hpassing
      -- the field of `d` turns, by its assignment or because both values agree
      have hrest := ih (fun e => if e = d then d.valueOf .little (chunk d) else value e)
        (fun e he => hmem e (List.mem_cons_of_mem d he)) hnodup ?_
      · simp only [hturned] at hrest
        cases ha : Assignment.ofEntry? d with
        | none =>
            rw [List.filterMap_cons_none ha]
            have hsame : (fun e => if e = d then d.valueOf .little (chunk d) else value e) = value := by
              funext e
              by_cases heq : e = d
              · rw [if_pos heq, heq, hvalue d List.mem_cons_self,
                  valueOf_of_ofEntry?_eq_none ha (hsound d hd).1 (hsound d hd).2]
              · rw [if_neg heq]
            rw [hsame] at hrest
            exact hrest
        | some a =>
            rw [List.filterMap_cons_some ha, List.foldlM_cons,
              run?_ofEntry? h hd (hsound d hd).1 (hsound d hd).2 (hvalue d List.mem_cons_self) ha]
            exact hrest
      · intro e he
        have hne : e ≠ d := fun heq => hfresh (heq ▸ he)
        show (if e = d then _ else _) = _
        rw [if_neg hne]
        exact hvalue e (List.mem_cons_of_mem d he)

end PackedRecord.Code
