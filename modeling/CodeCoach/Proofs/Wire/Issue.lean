import CodeCoach.Proofs.Json.Reader
import CodeCoach.Proofs.Wire.Feedback
import CodeCoach.Wire.Issue

/-!
# Documents, issues and contexts are read back

Each writer is inverted by its reader, also after the fields were put in order, and what a reader
gives can be written.

* `Issue.Fits`, `Context.Fits`: lines and columns have 32 bits;
* `Document.ofJson?_toJson`, `Issue.ofJson?_toJson`, `Context.read?_toJson`;
* `Issue.gives_ofJson?`, `Context.gives_read?`.
-/

namespace CodeCoach

open Json

/-! ### Leaves -/

theorem Json.nullable_str (o : Option String) :
    Record.nullable str? (ofOption .str o).sorted = some o := by
  cases o <;> rfl

theorem Json.nullable_nat32 {o : Option Nat} (h : ∀ n ∈ o, n < 0x100000000) :
    Record.nullable nat32? (ofOption ofNat o).sorted = some o := by
  cases o with
  | none => rfl
  | some n =>
    show (nat32? (ofNat n).sorted).map some = some (some n)
    rw [nat32?_ofNat (h n rfl), Option.map_some]

theorem Severity.variantIn?_name (loose : Bool) (s : Severity) :
    variantIn? loose Severity.ofName? s.toJson.sorted = some s :=
  Severity.ofName?_name s

theorem Kind.variantIn?_name (loose : Bool) (k : Kind) :
    variantIn? loose Kind.ofName? k.toJson.sorted = some k :=
  Kind.ofName?_name k

/-! ### Documents -/

/-- The fields that are written of a document. -/
def Document.fields (d : Document) : List (String × Json) :=
  [("text", .str d.text), ("language_tag", .str d.languageTag), ("path", .str d.path)]

theorem Document.nodup_fields (d : Document) : (d.fields.map Prod.fst).Nodup := by simp [fields]

theorem Document.ofJson?_toJson (d : Document) : Document.ofJson? d.toJson.sorted = some d := by
  have hfield := field?_sorted d.nodup_fields
  have htoJson : d.toJson.sorted = .obj (sortFields (sortedFields d.fields)) := rfl
  rw [htoJson]
  simp only [Document.ofJson?, record?, Option.bind_eq_bind, Option.bind_some, Record.required,
    Record.value?, hfield]
  simp [fields, field?_cons, sorted, str?]

/-! ### Locations -/

/-- The line and the column have 32 bits. -/
def Location.Fits (l : Location) : Prop := l.line < 0x100000000 ∧ ∀ n ∈ l.column, n < 0x100000000

/-- The fields that are written of a location. -/
def Location.fields (l : Location) : List (String × Json) :=
  [("path", .str l.path), ("line", .ofNat l.line), ("column", .ofOption .ofNat l.column)]

theorem Location.nodup_fields (l : Location) : (l.fields.map Prod.fst).Nodup := by simp [fields]

theorem Location.ofJson?_toJson {l : Location} (h : l.Fits) :
    Location.ofJson? l.toJson.sorted = some l := by
  have hfield := field?_sorted l.nodup_fields
  have htoJson : l.toJson.sorted = .obj (sortFields (sortedFields l.fields)) := rfl
  have hline := nat32?_ofNat h.1
  have hcolumn := nullable_nat32 h.2
  rw [htoJson]
  -- Steps by computation alone would make the kernel count up to the bound of 32 bits.
  simp -implicitDefEqProofs only [ofJson?, record?, Option.bind_eq_bind, Option.bind_some,
    Record.required, Record.optional, Record.value?, hfield]
  simp -implicitDefEqProofs [fields, field?_cons, sorted, str?, hline, hcolumn]

theorem Location.gives_ofJson? : Gives Location.ofJson? Location.Fits := by
  intro j l hj h
  simp only [ofJson?, Option.bind_eq_bind, Option.bind_eq_some_iff] at h
  obtain ⟨r, hr, path, -, line, hline, column, hcolumn, h⟩ := h
  cases h
  have hr := Record.bounded_of_record? hj hr
  exact ⟨(gives_natBelow _).of_required hr hline, (gives_natBelow _).of_optional hr hcolumn⟩

/-! ### Issues -/

/-- The line and the column have 32 bits. -/
def Issue.Fits (i : Issue) : Prop := i.location.Fits

/-- The fields that are written of an issue. -/
def Issue.fields (i : Issue) : List (String × Json) :=
  [("kind", i.kind.toJson), ("severity", i.severity.toJson), ("location", i.location.toJson),
    ("snippet", .str i.snippet), ("message", .str i.message), ("remedy", .ofOption .str i.remedy)]

theorem Issue.nodup_fields (i : Issue) : (i.fields.map Prod.fst).Nodup := by simp [fields]

theorem Issue.ofJson?_toJson {i : Issue} (h : i.Fits) : Issue.ofJson? i.toJson.sorted = some i := by
  have hfield := field?_sorted i.nodup_fields
  have htoJson : i.toJson.sorted = .obj (sortFields (sortedFields i.fields)) := rfl
  have hkind := i.kind.variantIn?_name false
  have hseverity := i.severity.variantIn?_name false
  have hlocation := Location.ofJson?_toJson h
  have hremedy := nullable_str i.remedy
  rw [htoJson]
  simp -implicitDefEqProofs only [ofJson?, record?, Option.bind_eq_bind, Option.bind_some,
    Record.required, Record.optional, Record.value?, hfield]
  simp -implicitDefEqProofs [fields, field?_cons, sorted, str?, Kind.ofJson?, Severity.ofJson?,
    variant?, hkind, hseverity, hlocation, hremedy]

theorem Issue.gives_ofJson? : Gives Issue.ofJson? Issue.Fits := by
  intro j i hj h
  simp only [ofJson?, Option.bind_eq_bind, Option.bind_eq_some_iff] at h
  obtain ⟨r, hr, _, -, _, -, location, hlocation, _, -, _, -, _, -, h⟩ := h
  cases h
  exact Location.gives_ofJson?.of_required (Record.bounded_of_record? hj hr) hlocation

/-! ### Contexts -/

/-- The line and the column have 32 bits. -/
def Context.Fits (c : Context) : Prop := c.line < 0x100000000 ∧ ∀ n ∈ c.column, n < 0x100000000

/-- The fields that are written of a context. -/
def Context.fields (c : Context) : List (String × Json) :=
  [("path", .str c.path), ("line", .ofNat c.line), ("column", .ofOption .ofNat c.column),
    ("kind", c.kind.toJson), ("severity", c.severity.toJson), ("description", .str c.description),
    ("suggestion", .ofOption .str c.suggestion), ("snippet", .str c.snippet)]

theorem Context.nodup_fields (c : Context) : (c.fields.map Prod.fst).Nodup := by simp [fields]

theorem Context.read?_toJson (loose : Bool) {c : Context} (h : c.Fits) :
    Context.read? loose c.toJson.sorted = some c := by
  have hfield := field?_sorted c.nodup_fields
  have htoJson : c.toJson.sorted = .obj (sortFields (sortedFields c.fields)) := rfl
  have hline := nat32?_ofNat h.1
  have hcolumn := nullable_nat32 h.2
  have hkind := c.kind.variantIn?_name loose
  have hseverity := c.severity.variantIn?_name loose
  have hsuggestion := nullable_str c.suggestion
  rw [htoJson]
  simp -implicitDefEqProofs only [read?, record?, Option.bind_eq_bind, Option.bind_some,
    Record.required, Record.optional, Record.value?, hfield]
  simp -implicitDefEqProofs [fields, field?_cons, sorted, str?, hline, hcolumn, hkind, hseverity,
    hsuggestion]

theorem Context.gives_read? (loose : Bool) : Gives (Context.read? loose) Context.Fits := by
  intro j c hj h
  simp only [read?, Option.bind_eq_bind, Option.bind_eq_some_iff] at h
  obtain ⟨r, hr, _, -, line, hline, column, hcolumn, _, -, _, -, _, -, _, -, _, -, h⟩ := h
  cases h
  have hr := Record.bounded_of_record? hj hr
  exact ⟨(gives_natBelow _).of_required hr hline, (gives_natBelow _).of_optional hr hcolumn⟩

end CodeCoach
