import RowQuery.Proofs.LayerKeys
import RowQuery.Proofs.Outcome

namespace RowQuery

theorem exists_of_map_singleton {α β : Type} {entries : List (String × α)} {read : α → β} {name : String} {x : β}
    (h : (entries.map fun e => (e.1, read e.2)) = [(name, x)]) : ∃ v, entries = [(name, v)] ∧ read v = x := by
  obtain ⟨⟨name, v⟩, rfl, he⟩ := List.map_eq_singleton_iff.mp h
  obtain ⟨rfl, hread⟩ := Prod.mk.inj he
  exact ⟨v, rfl, hread⟩

namespace Setting

def scalar? : Setting → Option Scalar
  | .scalar v => some v
  | _ => none

/-- The names of a section with the scalars under them. -/
def scalars (s : Setting) : List (String × Option Scalar) := s.entries.map fun e => (e.1, e.2.scalar?)

variable {s : Setting} {name : String} {v : Scalar}

theorem eq_scalar (h : s.scalar? = some v) : s = .scalar v := by
  cases s with
  | scalar w => exact congrArg Setting.scalar (Option.some.inj h)
  | nothing | list items | group entries => cases h

theorem eq_group (h : s.scalars = [(name, some v)]) : s = .group [(name, .scalar v)] := by
  obtain ⟨value, hentries, hvalue⟩ := exists_of_map_singleton h
  obtain rfl := eq_scalar hvalue
  cases s with
  | group entries => exact congrArg group hentries
  | nothing | scalar | list => cases hentries

end Setting

namespace Settings

open Setting

variable {k : Key} {layer : Layer} {s : Setting}

section Reading

variable {entries : List (String × Setting)} {name : String}

/-- What a section holds under a name, as it is read. -/
def present? (entries : List (String × Setting)) (name : String) : Option Setting :=
  (entries.lookup name).filter fun s => !s.isNothing

theorem get_of_scalarOr {α : Type} {default : α} {read : Scalar → Option α} {value : α}
    (h : scalarOr default read (present? entries name) = some value) :
    ((group entries).get name = .nothing ∧ default = value) ∨
      ∃ v, (group entries).get name = .scalar v ∧ read v = some value := by
  rw [Setting.get, Setting.entries]
  rw [present?] at h
  cases hlookup : entries.lookup name with
  | none =>
      rw [hlookup] at h
      exact .inl ⟨rfl, Option.some.inj h⟩
  | some s =>
      rw [hlookup] at h
      cases s with
      | nothing => exact .inl ⟨rfl, Option.some.inj h⟩
      | scalar v => exact .inr ⟨v, rfl, h⟩
      | list items | group entries => cases h

theorem logging?_group {l : LogSettings} (h : logging? s = some l) (hlist : ∀ items, s ≠ .list items) :
    ∃ entries, s = .group entries ∧
      scalarOr "info" (fun v => some v.asText) (present? entries "level") = some l.level ∧
      scalarOr false Scalar.bool? (present? entries "json") = some l.json := by
  cases s with
  | group entries =>
      simp only [logging?, members?, List.map_cons, List.map_nil, Option.bind_eq_bind, Option.bind_some,
        Option.bind_eq_some_iff, Option.some.injEq] at h
      obtain ⟨level, hlevel, json, hjson, rfl⟩ := h
      exact ⟨entries, rfl, hlevel, hjson⟩
  | list items => exact absurd rfl (hlist items)
  | nothing | scalar => cases h

theorem pagination?_group {p : PageSettings} (h : pagination? s = some p) (hlist : ∀ items, s ≠ .list items) :
    ∃ entries, s = .group entries ∧
      scalarOr 1 Scalar.count? (present? entries "default_page") = some p.defaultPage ∧
      scalarOr 15 Scalar.count? (present? entries "default_per_page") = some p.defaultPerPage := by
  cases s with
  | group entries =>
      simp only [pagination?, members?, List.map_cons, List.map_nil, Option.bind_eq_bind, Option.bind_some,
        Option.bind_eq_some_iff, Option.some.injEq] at h
      obtain ⟨page, hpage, perPage, hperPage, rfl⟩ := h
      exact ⟨entries, rfl, hpage, hperPage⟩
  | list items => exact absurd rfl (hlist items)
  | nothing | scalar => cases h

/-- A key has the value of what stands under it, or the default of its section, which is the built-in value. -/
theorem takes_of_ofSetting? {m : Setting} {settings : Settings} (h : ofSetting? m = some settings)
    (hlist : ∀ items, m.get k.table ≠ .list items) :
    (k.cell m = .nothing ∧ k.Takes k.builtIn settings) ∨ ∃ v, k.cell m = .scalar v ∧ k.Takes v settings := by
  simp only [ofSetting?, Option.bind_eq_bind, Option.bind_eq_some_iff, Option.some.injEq] at h
  obtain ⟨logging, hlogging, pagination, hpagination, rfl⟩ := h
  rw [Key.cell]
  cases k with
  | level =>
      obtain ⟨entries, hentries, hlevel, -⟩ := logging?_group hlogging hlist
      rw [Key.table, hentries]
      exact (get_of_scalarOr hlevel).imp (And.imp_right Eq.symm)
        (Exists.imp fun v => And.imp_right fun hread => (Option.some.inj hread).symm)
  | json =>
      obtain ⟨entries, hentries, -, hjson⟩ := logging?_group hlogging hlist
      rw [Key.table, hentries]
      exact (get_of_scalarOr hjson).imp_left (And.imp_right fun hdefault => congrArg some hdefault)
  | defaultPage =>
      obtain ⟨entries, hentries, hpage, -⟩ := pagination?_group hpagination hlist
      rw [Key.table, hentries]
      exact (get_of_scalarOr hpage).imp_left (And.imp_right fun hdefault => congrArg some hdefault)
  | defaultPerPage =>
      obtain ⟨entries, hentries, -, hperPage⟩ := pagination?_group hpagination hlist
      rw [Key.table, hentries]
      exact (get_of_scalarOr hperPage).imp_left (And.imp_right fun hdefault => congrArg some hdefault)

end Reading

section Layered

variable {lower upper : List Layer} {s : Settings}

theorem takes_given (h : ofSetting? (merged (lower ++ layer :: upper)) = some s)
    (hsolid : ∀ l ∈ layer :: upper, ∀ e ∈ l, e.2.Solid)
    (htable : ∀ l ∈ layer :: upper, ∀ e ∈ l, keepsTable k.table e = true) {x : Setting}
    (hgiven : k.given? layer = some x) (hupper : ∀ l ∈ upper, k.given? l = none) :
    ∃ v, x = .scalar v ∧ k.Takes v s := by
  have hleaves := leaves_merged lower hsolid htable hupper
  rw [hgiven] at hleaves
  have hne : k.cell (merged (lower ++ layer :: upper)) ≠ .nothing := by
    intro hnothing
    rw [hnothing] at hleaves
    cases x with
    | scalar v => cases hleaves
    | nothing | list | group => exact hleaves
  have hlist : ∀ items, (merged (lower ++ layer :: upper)).get k.table ≠ .list items :=
    fun items hitems => hne (by rw [Key.cell, hitems]; rfl)
  obtain ⟨hnothing, -⟩ | ⟨v, hv, htakes⟩ := takes_of_ofSetting? h hlist
  · exact absurd hnothing hne
  · rw [hv] at hleaves
    cases x with
    | scalar w =>
        cases hleaves
        exact ⟨v, rfl, htakes⟩
    | nothing | list | group => exact hleaves.elim

theorem takes_builtIn (h : ofSetting? (merged (lower ++ layer :: upper)) = some s)
    (hsolid : ∀ l ∈ layer :: upper, ∀ e ∈ l, e.2.Solid)
    (htable : ∀ l ∈ layer :: upper, ∀ e ∈ l, keepsTable k.table e = true ∨ blanksTable k.table e = true)
    (hblanks : ∃ e ∈ layer, blanksTable k.table e = true) (hgiven : ∀ l ∈ layer :: upper, k.given? l = none) :
    k.Takes k.builtIn s := by
  obtain ⟨hnothing, hlist⟩ := unset_merged lower hsolid htable hblanks hgiven
  obtain ⟨-, htakes⟩ | ⟨v, hv, -⟩ := takes_of_ofSetting? h hlist
  · exact htakes
  · rw [hnothing] at hv
    cases hv

end Layered

theorem validate_ok {s : Settings} (h : s.validate = .ok ()) : (∃ c ∈ s.logging.level.toList, Text.isBlank c = false) ∧
    s.pagination.defaultPage ≠ 0 ∧ s.pagination.defaultPerPage ≠ 0 := by
  rw [validate] at h
  split_ifs at h with hlevel hpage hperPage
  refine ⟨?_, hpage, hperPage⟩
  by_contra hblank
  push Not at hblank
  exact hlevel (Text.trim_eq_nil fun c hc => by simpa using hblank c hc)

theorem load_ok {source : SettingsSource} {environment : String} {s : Settings}
    (h : load source environment = .ok s) :
    s.validate = .ok () ∧ ∃ layers, layers? source environment = some layers ∧ ofSetting? (merged layers) = some s := by
  rw [load] at h
  split at h
  · cases h
  · rename_i t hread
    obtain ⟨layers, hlayers, hsettings⟩ := Option.bind_eq_some_iff.mp hread
    cases hvalid : t.validate with
    | error e =>
        rw [hvalid] at h
        cases h
    | ok =>
        rw [hvalid] at h
        cases h
        exact ⟨hvalid, layers, hlayers, hsettings⟩

namespace Key

theorem isPlainName_table (k : Key) : Path.isPlainName k.table = true := by
  cases k <;> decide

theorem isPlainName_name (k : Key) : Path.isPlainName k.name = true := by
  cases k <;> decide

theorem lowered_table (k : Key) : Text.lowered k.table = k.table := Path.lowered_plainName k.isPlainName_table

theorem lowered_name (k : Key) : Text.lowered k.name = k.name := Path.lowered_plainName k.isPlainName_name

/-- What a layer calls a key: its table and its name with a dot between them. -/
def dotted (k : Key) : String := k.table ++ "." ++ k.name

theorem ofKey_dotted (k : Key) : Path.ofKey k.dotted = [.name k.table, .name k.name] :=
  Path.ofKey_dotted k.isPlainName_table k.isPlainName_name

theorem ofKey_table (k : Key) : Path.ofKey k.table = [.name k.table] := Path.ofKey_plainName k.isPlainName_table

theorem said_dotted (k other : Key) (value : Setting) :
    k.said (other.dotted, value) = if other = k then [([], value)] else [] := by
  have hiff : other.table = k.table ∧ other.name = k.name ↔ other = k := by
    constructor
    · rintro ⟨-, hname⟩
      cases other <;> cases k <;> simp [name] at hname ⊢
    · rintro rfl
      exact ⟨rfl, rfl⟩
  simp only [said_name other.ofKey_dotted, lowered_table, lowered_name, hiff]

end Key

theorem keepsTable_dotted (table : String) (k : Key) (value : Setting) : keepsTable table (k.dotted, value) = true := by
  unfold keepsTable
  rw [k.ofKey_dotted]

theorem toLayer_defaults :
    toLayer {} = [Key.level, .json, .defaultPage, .defaultPerPage].map fun k => (k.dotted, .scalar k.builtIn) := by
  rfl

theorem given?_defaults (k : Key) : k.given? (toLayer {}) = some (.scalar k.builtIn) := by
  rw [toLayer_defaults, Key.given?]
  cases k <;> simp [Key.said_dotted, lastOf, isNothing, assign, overlay]

theorem keepsTable_defaults (k : Key) : ∀ e ∈ toLayer {}, keepsTable k.table e = true := by
  rw [toLayer_defaults]
  exact List.forall_mem_map.mpr fun other _ => keepsTable_dotted k.table other _

/-- Loaded settings are valid, and each key has the value of the highest of the layers that give it one, as the
defaults do, if neither that layer nor one above it puts anything but a table in the place of the key's table. If one
puts a scalar there, a key that no layer from there on gives has its built-in value, whatever was given below. -/
theorem load_takes_highest {source : SettingsSource} {environment : String} {s : Settings}
    (h : load source environment = .ok s) :
    s.validate = .ok () ∧ (∃ c ∈ s.logging.level.toList, Text.isBlank c = false) ∧
    s.pagination.defaultPage ≠ 0 ∧ s.pagination.defaultPerPage ≠ 0 ∧
    ∃ base overlay, fileLayer? (source.fileText? SettingsSource.fileName) = some base ∧
      fileLayer? (source.fileText? (SettingsSource.fileName ++ "." ++ environment)) = some overlay ∧
      ∀ k : Key, k.given? (toLayer {}) = some (.scalar k.builtIn) ∧
        (∀ e ∈ toLayer {}, keepsTable k.table e = true) ∧
        ∀ (lower : List Layer) (layer : Layer) (upper : List Layer),
          [toLayer {}, base, overlay, variableLayer source] = lower ++ layer :: upper →
          (∀ x, (∀ l ∈ layer :: upper, ∀ e ∈ l, keepsTable k.table e = true) →
            k.given? layer = some x → (∀ l ∈ upper, k.given? l = none) → ∃ v, x = .scalar v ∧ k.Takes v s) ∧
          ((∀ l ∈ layer :: upper, ∀ e ∈ l, keepsTable k.table e = true ∨ blanksTable k.table e = true) →
            (∃ e ∈ layer, blanksTable k.table e = true) → (∀ l ∈ layer :: upper, k.given? l = none) →
            k.Takes k.builtIn s) := by
  obtain ⟨hvalid, layers, hlayers, hread⟩ := load_ok h
  have hsolid := solid_layers hlayers
  obtain ⟨hlevel, hpage, hperPage⟩ := validate_ok hvalid
  simp only [layers?, Option.bind_eq_bind, Option.bind_eq_some_iff, Option.some.injEq] at hlayers
  obtain ⟨base, hbase, overlay, hoverlay, rfl⟩ := hlayers
  refine ⟨hvalid, hlevel, hpage, hperPage, base, overlay, hbase, hoverlay, fun k =>
    ⟨given?_defaults k, keepsTable_defaults k, fun lower layer upper hsplit => ?_⟩⟩
  rw [hsplit] at hread hsolid
  have hfrom : ∀ l ∈ layer :: upper, ∀ e ∈ l, e.2.Solid := fun l hl => hsolid l (List.mem_append_right lower hl)
  exact ⟨fun x htable hgiven hupper => takes_given hread hfrom htable hgiven hupper,
    fun htable hblanks hgiven => takes_builtIn hread hfrom htable hblanks hgiven⟩

theorem given?_dotted (k other : Key) (v : Scalar) :
    k.given? [(other.dotted, .scalar v)] = if other = k then some (.scalar v) else none := by
  rw [Key.given?, List.flatMap_singleton, Key.said_dotted]
  split <;> simp [lastOf, isNothing, assign, overlay]

theorem given?_table_scalar (k other : Key) (v : Scalar) : k.given? [(other.table, .scalar v)] = none := by
  simp [Key.given?, Key.said_table other.ofKey_table, entries, lastOf]

theorem given?_table_group (k : Key) (v : Scalar) :
    k.given? [(k.table, .group [(k.name, .scalar v)])] = some (.scalar v) := by
  simp [Key.given?, Key.said_table k.ofKey_table, Key.lowered_table, Key.lowered_name, entries, lastOf, isNothing,
    assign, overlay]

theorem blanksTable_scalar (k : Key) (v : Scalar) : blanksTable k.table (k.table, .scalar v) = true := by
  unfold blanksTable
  dsimp only
  rw [k.ofKey_table]
  exact decide_eq_true k.lowered_table

/-- A level for all environments, a number in the place of its table for one, and a variable with another key of the
table. -/
def blankedLevel : SettingsSource where
  files := ⟨[("query_scope.t.toml", "logging = 3\n"), ("query_scope.toml", "[logging]\nlevel = \"a\"\n")], by decide⟩
  environmentVariables := ⟨[("QUERY_SCOPE__LOGGING__JSON", "1")], by decide⟩

theorem base_blankedLevel : fileLayer? (blankedLevel.fileText? SettingsSource.fileName) =
    some [(Key.level.table, .group [(Key.level.name, .scalar (.text "a"))])] := by
  have h : (fileLayer? (blankedLevel.fileText? SettingsSource.fileName)).map (fun l =>
      l.map fun e => (e.1, e.2.scalars)) = some [(Key.level.table, [(Key.level.name, some (.text "a"))])] := by
    decide +kernel
  obtain ⟨base, hbase, h⟩ := Option.map_eq_some_iff.mp h
  obtain ⟨s, rfl, hs⟩ := exists_of_map_singleton h
  rw [hbase, eq_group hs]

theorem overlay_blankedLevel : fileLayer? (blankedLevel.fileText? (SettingsSource.fileName ++ "." ++ "t")) =
    some [(Key.level.table, .scalar (.int 3))] := by
  have h : (fileLayer? (blankedLevel.fileText? (SettingsSource.fileName ++ "." ++ "t"))).map (fun l =>
      l.map fun e => (e.1, e.2.scalar?)) = some [(Key.level.table, some (.int 3))] := by
    decide +kernel
  obtain ⟨overlay, hoverlay, h⟩ := Option.map_eq_some_iff.mp h
  obtain ⟨s, rfl, hs⟩ := exists_of_map_singleton h
  rw [hoverlay, eq_scalar hs]

theorem variables_blankedLevel : variableLayer blankedLevel = [(Key.json.dotted, .scalar (.int 1))] := by
  rfl

theorem merged_blankedLevel : merged [toLayer {}, [(Key.level.table, .group [(Key.level.name, .scalar (.text "a"))])],
    [(Key.level.table, .scalar (.int 3))], [(Key.json.dotted, .scalar (.int 1))]] =
      .group [("logging", .group [("json", .scalar (.int 1))]),
        ("pagination", .group [("default_page", .scalar (.int 1)), ("default_per_page", .scalar (.int 15))])] := by
  simp only [merged, toLayer_defaults, addLayer, List.map_cons, List.map_nil, List.foldl_cons, List.foldl_nil,
    Key.ofKey_dotted, Key.ofKey_table, Key.lowered_table, Key.lowered_name, assign, overlay, overlayEntries]
  rfl

theorem layers_blankedLevel : layers? blankedLevel "t" =
    some [toLayer {}, [(Key.level.table, .group [(Key.level.name, .scalar (.text "a"))])],
      [(Key.level.table, .scalar (.int 3))], [(Key.json.dotted, .scalar (.int 1))]] := by
  simp [layers?, base_blankedLevel, overlay_blankedLevel, variables_blankedLevel]

theorem load_blankedLevel : load blankedLevel "t" = .ok { logging := { level := "info", json := true } } := by
  rw [load, layers_blankedLevel, Option.bind_some, merged_blankedLevel]
  rfl

theorem load_takes_highest_blanked : ∃ s, load blankedLevel "t" = .ok s ∧ Key.json.Takes (.int 1) s ∧
    Key.level.Takes Key.level.builtIn s := by
  obtain ⟨-, -, -, -, base, overlay, -, hoverlay, hkeys⟩ := load_takes_highest load_blankedLevel
  obtain rfl := Option.some.inj (overlay_blankedLevel.symm.trans hoverlay)
  rw [variables_blankedLevel] at hkeys
  refine ⟨_, load_blankedLevel, ?_, ?_⟩
  · obtain ⟨hhighest, -⟩ := (hkeys .json).2.2 [toLayer {}, base, _] _ [] rfl
    obtain ⟨v, hv, htakes⟩ := hhighest _ (by simp [keepsTable_dotted]) (given?_dotted .json .json (.int 1)) (by simp)
    obtain rfl := Setting.scalar.inj hv
    exact htakes
  · obtain ⟨-, hblanked⟩ := (hkeys .level).2.2 [toLayer {}, base] _ [_] rfl
    refine hblanked ?_ ⟨_, List.mem_singleton_self _, blanksTable_scalar .level (.int 3)⟩ ?_
    · simp [keepsTable_dotted, blanksTable_scalar]
    · simp [given?_table_scalar, given?_dotted]

/-- A level is lost if a number takes the place of its table in a higher layer and a variable restores the table. -/
theorem exists_lost_level : ¬ ∀ (source : SettingsSource) (environment : String) (s : Settings) (base overlay : Layer),
    load source environment = .ok s → fileLayer? (source.fileText? SettingsSource.fileName) = some base →
    fileLayer? (source.fileText? (SettingsSource.fileName ++ "." ++ environment)) = some overlay →
    ∀ (k : Key) (lower : List Layer) (layer : Layer) (upper : List Layer) (x : Setting),
      [toLayer {}, base, overlay, variableLayer source] = lower ++ layer :: upper →
      k.given? layer = some x → (∀ l ∈ upper, k.given? l = none) → ∃ v, x = .scalar v ∧ k.Takes v s := by
  intro h
  obtain ⟨v, hv, htakes⟩ := h blankedLevel "t" _ _ _ load_blankedLevel base_blankedLevel overlay_blankedLevel .level
    [toLayer {}] _ [_, variableLayer blankedLevel] _ rfl (given?_table_group .level (.text "a")) (by
      simp [variables_blankedLevel, given?_table_scalar, given?_dotted])
  obtain rfl := Setting.scalar.inj hv
  exact absurd (show "info" = "a" from htakes) (by decide)

end Settings

end RowQuery
