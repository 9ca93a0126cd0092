import RowQuery.Proofs.AssignedKeys
import RowQuery.Proofs.Increment
import RowQuery.Proofs.KeyColumn

namespace RowQuery

namespace Table

variable {name column : String} {t t' : Table} {row stored : Row} {rows : List Row} {keys : List Json} {amount : Int64}

/-- A table with the counter of another one, and with no other keys than it has. -/
structure Keeps (t t' : Table) : Prop where
  key : t'.primaryKey = t.primaryKey
  next : t'.nextKey = t.nextKey
  keys : t'.keyColumn ⊆ t.keyColumn

section Changes

theorem keeps_of_keyColumn (h : t'.keyColumn = t.keyColumn) (hkey : t'.primaryKey = t.primaryKey)
    (hnext : t'.nextKey = t.nextKey) : t.Keeps t' :=
  ⟨hkey, hnext, fun _ hmem => h ▸ hmem⟩

theorem keeps_refl (t : Table) : t.Keeps t := keeps_of_keyColumn rfl rfl rfl

theorem keeps_delete (t : Table) (keys : List Json) : t.Keeps (t.delete keys).2 :=
  ⟨rfl, rfl, (List.filter_sublist.map _).subset⟩

theorem update_of_none (h : ∀ row ∈ t.rows, t.keyIsAmong keys row = false) (data : Row) : (t.update keys data).2 = t := by
  rw [update_eq, changedWhere_of_none h]

theorem keeps_update {data : Row}
    (h : (data.get? t.primaryKey).isSome = true → ∀ row ∈ t.rows, t.keyIsAmong keys row = false) :
    t.Keeps (t.update keys data).2 := by
  cases hdata : data.get? t.primaryKey with
  | none => exact keeps_of_keyColumn (keyColumn_update hdata keys) rfl rfl
  | some key =>
      rw [update_of_none (h (by rw [hdata]; rfl))]
      exact t.keeps_refl

/-- An increment changes nothing if it fails at the first row that it reaches. -/
theorem incrementEach_of_head {test : Row → Bool}
    (h : ∀ row, (rows.filter test).head? = some row → raised? name column amount row = none) :
    (incrementEach name column amount test rows).2 = rows := by
  induction rows with
  | nil => rfl
  | cons row rest ih =>
      cases htest : test row with
      | true =>
          have hrow := h row (by rw [List.filter_cons_of_pos htest]; rfl)
          cases hsum : incremented name column (row.get? column) amount with
          | ok a => simp [raised?, hsum, Except.toOption] at hrow
          | error e => simp [incrementEach, htest, hsum]
      | false =>
          have hrest := ih fun other hother => h other (by rwa [List.filter_cons_of_neg (by simp [htest])])
          simp only [incrementEach, htest, Bool.false_eq_true, if_false]
          exact congrArg (List.cons row) hrest

theorem keeps_increment (h : column = t.primaryKey → ∀ row, (t.rows.filter (t.keyIsAmong keys)).head? = some row →
    raised? name column amount row = none) : t.Keeps (t.increment name keys column amount).2 := by
  refine keeps_of_keyColumn ?_ rfl rfl
  by_cases hcolumn : column = t.primaryKey
  · have hrows : (t.increment name keys column amount).2.rows = t.rows := incrementEach_of_head (h hcolumn)
    rw [keyColumn, hrows]
    rfl
  · exact keyColumn_increment hcolumn name keys amount

theorem keeps_updateFirst {attributes values found : Row} (hvalues : values.get? t.primaryKey = none)
    (h : updateFirst attributes values t.rows = some (found, rows)) : t.Keeps { t with rows } := by
  obtain ⟨before, old, rest, hrows, -, -, rfl, rfl⟩ := updateFirst_eq_some h
  refine keeps_of_keyColumn ?_ rfl rfl
  rw [keyColumn, keyColumn, hrows, List.map_append, List.map_append, List.map_cons, List.map_cons]
  exact congrArg (fun key => before.map t.keyOf? ++ key :: rest.map t.keyOf?) (keyOf?_merge hvalues old)

end Changes

section Entries

variable {entries : List Entry}

/-- If the later of two rows came without a key, the one that it was given is above the key of the earlier. -/
def Exceeds (t : Table) (a b : Entry) : Prop :=
  b.1 = none → ∀ k m, t.keyOf? a.2 = some (.ofInt64 k) → t.keyOf? b.2 = some (.ofInt64 m) → k.toInt < m.toInt

/-- A table has no keys but of rows that it has taken, and its counter is above all of these that are 64-bit integers, as
is each key that it has assigned above those before. -/
structure Leads (t : Table) (entries : List Entry) : Prop where
  positive : 1 ≤ t.nextKey.toInt
  held : ∀ key ∈ t.keyColumn, ∃ e ∈ entries, t.keyOf? e.2 = key
  behind : ∀ e ∈ entries, ∀ k, t.keyOf? e.2 = some (.ofInt64 k) → k.toInt < t.nextKey.toInt
  assigned : ∀ e ∈ entries, e.1 = none → ∃ m, t.keyOf? e.2 = some (.ofInt64 m) ∧ 1 ≤ m.toInt
  exceeds : entries.Pairwise t.Exceeds

theorem Leads.keep (h : t.Leads entries) (hkeeps : t.Keeps t') : t'.Leads entries := by
  have hkeyOf := keyOf?_congr hkeeps.key
  refine ⟨?_, ?_, ?_, ?_, ?_⟩
  · rw [hkeeps.next]
    exact h.positive
  · rw [hkeyOf]
    exact fun key hmem => h.held key (hkeeps.keys hmem)
  · rw [hkeyOf, hkeeps.next]
    exact h.behind
  · rw [hkeyOf]
    exact h.assigned
  · refine h.exceeds.imp ?_
    intro a b hab
    rw [Exceeds, hkeyOf]
    exact hab

theorem Leads.append (h : t.Leads entries) {e : Entry} {next : Int64} (hnext : t.nextKey.toInt ≤ next.toInt)
    (hkey : ∀ k, t.keyOf? e.2 = some (.ofInt64 k) → k.toInt < next.toInt)
    (hassigned : e.1 = none → t.keyOf? e.2 = some (.ofInt64 t.nextKey)) :
    ({ t with rows := t.rows ++ [e.2], nextKey := next } : Table).Leads (entries ++ [e]) where
  positive := Int.le_trans h.positive hnext
  held := by
    intro key hmem
    replace hmem : key ∈ (t.rows ++ [e.2]).map t.keyOf? := hmem
    rw [List.map_append] at hmem
    rcases List.mem_append.mp hmem with hold | hlast
    · obtain ⟨a, ha, hka⟩ := h.held key hold
      exact ⟨a, List.mem_append_left _ ha, hka⟩
    · exact ⟨e, List.mem_append_right _ (List.mem_singleton_self e), (List.mem_singleton.mp hlast).symm⟩
  behind := by
    intro a ha k hk
    rcases List.mem_append.mp ha with hold | hlast
    · exact Int.lt_of_lt_of_le (h.behind a hold k hk) hnext
    · exact hkey k (List.mem_singleton.mp hlast ▸ hk)
  assigned := by
    intro a ha hnone
    rcases List.mem_append.mp ha with hold | hlast
    · exact h.assigned a hold hnone
    · obtain rfl := List.mem_singleton.mp hlast
      exact ⟨t.nextKey, hassigned hnone, h.positive⟩
  exceeds := by
    refine List.pairwise_append.mpr ⟨h.exceeds, List.pairwise_singleton _ _, ?_⟩
    intro a ha b hb hnone k m hk hm
    obtain rfl := List.mem_singleton.mp hb
    obtain rfl := Json.ofInt64_inj (Option.some.inj ((hassigned hnone).symm.trans hm))
    exact h.behind a ha k hk

theorem Leads.insert (h : t.Leads entries) (hinsert : t.insert name row = .ok (stored, t'))
    (hroom : t.keyOf? stored ≠ some (.ofInt64 .maxValue)) : t'.Leads (entries ++ [(t.keyOf? row, stored)]) := by
  rcases insert_eq_ok.mp hinsert with ⟨key, hkey, -, rfl, rfl⟩ | ⟨hnone, rfl, rfl⟩
  · apply h.append (e := (t.keyOf? stored, stored)) (le_keyAfter t.nextKey key)
    · intro k hk
      obtain rfl := Option.some.inj (hkey.symm.trans hk)
      exact lt_keyAfter (fun hmax => hroom (hmax ▸ hkey)) t.nextKey
    · intro hgiven
      exact absurd hgiven (by simp [hkey])
  · have hassigned := t.keyOf?_assigned row t.nextKey
    have hsucc : (t.nextKey + 1).toInt = t.nextKey.toInt + 1 :=
      toInt_succ fun hmax => hroom (hassigned.trans (by rw [hmax]))
    apply h.append (e := (t.keyOf? row, row.insert t.primaryKey (.ofInt64 t.nextKey))) (by omega)
    · intro k hk
      obtain rfl := Json.ofInt64_inj (Option.some.inj (hassigned.symm.trans hk))
      omega
    · exact fun _ => hassigned

theorem Leads.insertEach (h : t.Leads entries)
    (hroom : ∀ e ∈ t.taken name rows, t.keyOf? e.2 ≠ some (.ofInt64 .maxValue)) :
    (t.insertEach name rows).2.primaryKey = t.primaryKey ∧
      (t.insertEach name rows).2.Leads (entries ++ t.taken name rows) := by
  induction rows generalizing t entries with
  | nil => exact ⟨rfl, by simpa [Table.insertEach, taken] using h⟩
  | cons row rest ih =>
      unfold taken at hroom
      unfold Table.insertEach taken
      cases hinsert : t.insert name row with
      | error e => exact ⟨rfl, by simpa using h⟩
      | ok c =>
          obtain ⟨stored, t'⟩ := c
          rw [hinsert] at hroom
          obtain ⟨hfirst, hrest⟩ := List.forall_mem_cons.mp hroom
          have hkey := (insert_appends hinsert).1
          obtain ⟨hkeys, hleads⟩ := ih (h.insert hinsert hfirst) (keyOf?_congr hkey ▸ hrest)
          rw [List.append_assoc] at hleads
          exact ⟨hkeys.trans hkey, hleads⟩

end Entries

end Table

/-- A call that writes to a table. -/
inductive Write
  | insertion (table : String) (c : Insertion)
  | update (q : Query) (data : Row)
  | updateOrCreate (table : String) (attributes values : Row)
  | increment (q : Query) (column : String) (amount : Int64)
  | delete (q : Query)
  | destroy (table : String) (ids : List Json)

namespace Write

def table : Write → String
  | insertion table _ | updateOrCreate table _ _ | destroy table _ => table
  | update q _ | increment q _ _ | delete q => q.table

def run (s : Store) : Write → Store
  | insertion table c => c.run table s
  | update q data => (s.update q data).2
  | updateOrCreate table attributes values => (s.updateOrCreate table attributes values).2
  | increment q column amount => (s.increment q column amount).2
  | delete q => (s.delete q).2
  | destroy table ids => (s.destroy table ids).2

def runAll (s : Store) (calls : List Write) : Store := calls.foldl run s

/-- The rows that a query picks by their keys, none if it cannot be run. -/
def picked (s : Store) (q : Query) (t : Table) : List Row :=
  match s.matchedKeys q with
  | .ok keys => t.rows.filter (t.keyIsAmong keys)
  | .error _ => []

/-- Whether a call writes into the key column of a row that its table has. -/
def setsKey (s : Store) (t : Table) : Write → Bool
  | update q data => data.contains t.primaryKey && !(picked s q t).isEmpty
  | updateOrCreate _ attributes values => values.contains t.primaryKey && t.rows.any (Table.hasValues attributes)
  | increment q column amount =>
    column = t.primaryKey && (picked s q t).head?.any fun row => (Table.raised? q.table column amount row).isSome
  | insertion .. | delete _ | destroy .. => false

/-- The rows that a call offers to its table. -/
def offered (t : Table) : Write → List Row
  | insertion _ c => c.rows
  | updateOrCreate _ attributes values =>
    if t.rows.any (Table.hasValues attributes) then [] else [attributes.merge values]
  | update .. | increment .. | delete _ | destroy .. => []

/-- What a table takes of the rows that a call offers to it. -/
def taken (name : String) (s : Store) (w : Write) : List Table.Entry :=
  match s.table name with
  | .ok t => if w.table = name then t.taken name (w.offered t) else []
  | .error _ => []

def entries (name : String) (s : Store) : List Write → List Table.Entry
  | [] => []
  | w :: rest => w.taken name s ++ entries name (w.run s) rest

/-- Whether no call writes into the key column of a row that the table has. -/
def leaveKeys (name : String) (s : Store) : List Write → Bool
  | [] => true
  | w :: rest =>
    (w.table ≠ name || (s.table name).toOption.all fun t => !w.setsKey s t) && leaveKeys name (w.run s) rest

variable {s : Store} {name : String} {t : Table} {w : Write}

theorem run_of_other (h : w.table ≠ name) : (w.run s).table name = s.table name := by
  cases w with
  | insertion table c => cases c <;> exact Store.table_changeTable_of_ne h _
  | update | increment | delete => exact Store.table_changeMatched_of_ne h _
  | updateOrCreate | destroy => exact Store.table_changeTable_of_ne h _

theorem table_changeMatched {α : Type} {q : Query} (ht : s.table q.table = .ok t)
    (change : Table → List Json → Except StoreError α × Table) :
    (s.changeMatched q change).2.table q.table =
      .ok (match s.matchedKeys q with
        | .ok keys => (change t keys).2
        | .error _ => t) := by
  cases hkeys : s.matchedKeys q with
  | error e =>
      rw [Store.changeMatched, hkeys]
      exact ht
  | ok keys => rw [Store.changeMatched_of_keys ht hkeys, Store.table_putTable]

theorem updateOrCreate_keeps {attributes values : Row} (ht : s.table name = .ok t)
    (hkeys : (updateOrCreate name attributes values).setsKey s t = false) :
    ∃ t', (s.updateOrCreate name attributes values).2.table name = .ok t' ∧
      (t' = (t.insertEach name ((updateOrCreate name attributes values).offered t)).2 ∨
        (updateOrCreate name attributes values).offered t = [] ∧ t.Keeps t') := by
  cases hfirst : Table.updateFirst attributes values t.rows with
  | none =>
      have hnone : t.rows.any (Table.hasValues attributes) = false := by
        simpa using Table.updateFirst_eq_none.mp hfirst
      have hoffered : (updateOrCreate name attributes values).offered t = [attributes.merge values] := by
        simp [offered, hnone]
      -- Where no row has the attributes the call is the creation of a row.
      have hcreate : s.updateOrCreate name attributes values = s.create name (attributes.merge values) := by
        simp only [Store.updateOrCreate, Store.create, Store.tryTable, Store.changeTable_of_table ht,
          Table.updateOrCreate, hfirst]
      refine ⟨_, ?_, .inl rfl⟩
      rw [hcreate, hoffered]
      show ((Insertion.create (attributes.merge values)).run name s).table name = _
      rw [Insertion.run_eq ht, Store.table_putTable]
      rfl
  | some c =>
      obtain ⟨found, rows⟩ := c
      obtain ⟨before, old, rest, hrows, -, hold, -, -⟩ := Table.updateFirst_eq_some hfirst
      have hsome : t.rows.any (Table.hasValues attributes) = true := by simp [hrows, hold]
      have hvalues : values.get? t.primaryKey = none := by simpa [setsKey, hsome, Dict.contains] using hkeys
      refine ⟨{ t with rows }, ?_, .inr ⟨by simp [offered, hsome], Table.keeps_updateFirst hvalues hfirst⟩⟩
      have hupdate : t.updateOrCreate name attributes values = .ok (found, { t with rows }) := by
        rw [Table.updateOrCreate, hfirst]
      rw [Store.updateOrCreate, Store.tryTable_of_ok ht hupdate, Store.table_putTable]

/-- A call that spares the keys of its table adds the rows that it offers, or offers none and brings no new keys. -/
theorem run_of_table (ht : s.table w.table = .ok t) (hkeys : w.setsKey s t = false) :
    ∃ t', (w.run s).table w.table = .ok t' ∧
      (t' = (t.insertEach w.table (w.offered t)).2 ∨ w.offered t = [] ∧ t.Keeps t') := by
  cases w with
  | insertion table c =>
      replace ht : s.table table = .ok t := ht
      refine ⟨_, ?_, .inl rfl⟩
      show (c.run table s).table table = _
      rw [Insertion.run_eq ht, Store.table_putTable]
      rfl
  | update q data =>
      refine ⟨_, table_changeMatched ht _, .inr ⟨rfl, ?_⟩⟩
      cases hmatched : s.matchedKeys q with
      | error e => exact t.keeps_refl
      | ok keys =>
          apply Table.keeps_update
          simpa [setsKey, picked, hmatched, Dict.contains] using hkeys
  | updateOrCreate table attributes values => exact updateOrCreate_keeps ht hkeys
  | increment q column amount =>
      refine ⟨_, table_changeMatched ht _, .inr ⟨rfl, ?_⟩⟩
      cases hmatched : s.matchedKeys q with
      | error e => exact t.keeps_refl
      | ok keys =>
          apply Table.keeps_increment
          intro hcolumn row hrow
          simpa [setsKey, picked, hmatched, hcolumn, hrow] using hkeys
  | delete q =>
      refine ⟨_, table_changeMatched ht _, .inr ⟨rfl, ?_⟩⟩
      cases s.matchedKeys q with
      | error e => exact t.keeps_refl
      | ok keys => exact t.keeps_delete keys
  | destroy table ids =>
      replace ht : s.table table = .ok t := ht
      refine ⟨(t.delete ids).2, ?_, .inr ⟨rfl, t.keeps_delete ids⟩⟩
      show (s.changeTable table _).2.table table = _
      rw [Store.changeTable_of_table ht, Store.table_putTable]

theorem run_leads {before : List Table.Entry} (ht : s.table name = .ok t) (hleads : t.Leads before)
    (hkeys : w.table = name → w.setsKey s t = false)
    (hroom : ∀ e ∈ w.taken name s, t.keyOf? e.2 ≠ some (.ofInt64 .maxValue)) :
    ∃ t', (w.run s).table name = .ok t' ∧ t'.primaryKey = t.primaryKey ∧ t'.Leads (before ++ w.taken name s) := by
  simp only [taken, ht] at hroom ⊢
  by_cases hw : w.table = name
  · subst hw
    simp only [if_true] at hroom ⊢
    obtain ⟨t', hrun, rfl | ⟨hnone, hkeeps⟩⟩ := run_of_table ht (hkeys rfl)
    · obtain ⟨hkey, hafter⟩ := hleads.insertEach hroom
      exact ⟨_, hrun, hkey, hafter⟩
    · rw [hnone]
      exact ⟨t', hrun, hkeeps.key, by simpa [Table.taken] using hleads.keep hkeeps⟩
  · rw [if_neg hw, List.append_nil]
    exact ⟨t, (run_of_other hw).trans ht, rfl, hleads⟩

theorem runs_lead {before : List Table.Entry} (ht : s.table name = .ok t) (hleads : t.Leads before) {calls : List Write}
    (hkeys : leaveKeys name s calls = true)
    (hroom : ∀ e ∈ entries name s calls, t.keyOf? e.2 ≠ some (.ofInt64 .maxValue)) :
    ∃ t', (runAll s calls).table name = .ok t' ∧ t'.primaryKey = t.primaryKey ∧
      t'.Leads (before ++ entries name s calls) := by
  induction calls generalizing s t before with
  | nil => exact ⟨t, ht, rfl, by simpa [entries] using hleads⟩
  | cons w rest ih =>
      obtain ⟨hfirst, hrest⟩ := Bool.and_eq_true_iff.mp hkeys
      have hsafe : w.table = name → w.setsKey s t = false := by simpa [ht, Except.toOption, imp_iff_not_or] using hfirst
      obtain ⟨hroomFirst, hroomRest⟩ := List.forall_mem_append.mp hroom
      obtain ⟨t', ht', hkey, hleads'⟩ := run_leads ht hleads hsafe hroomFirst
      obtain ⟨t'', hrun, hkey', hall⟩ := ih ht' hleads' hrest (Table.keyOf?_congr hkey ▸ hroomRest)
      rw [List.append_assoc] at hall
      exact ⟨t'', hrun, hkey'.trans hkey, hall⟩

theorem entries_append (past rest : List Write) :
    entries name s (past ++ rest) = entries name s past ++ entries name (runAll s past) rest := by
  induction past generalizing s with
  | nil => rfl
  | cons w past ih =>
      rw [List.cons_append, entries, entries, ih, List.append_assoc]
      rfl

theorem leaveKeys_of_append {past rest : List Write} (h : leaveKeys name s (past ++ rest) = true) :
    leaveKeys name s past = true := by
  induction past generalizing s with
  | nil => rfl
  | cons w past ih =>
      obtain ⟨hw, hpast⟩ := Bool.and_eq_true_iff.mp h
      exact Bool.and_eq_true_iff.mpr ⟨hw, ih hpast⟩

end Write

namespace Store

open Write

/-- However a table that was empty is written to, as long as no call writes into the key column of a row that is there and
the greatest key is not taken: at every point the counter is positive and above every 64-bit integer that has been a key
by then, those of rows that are gone included. So each key that it assigns is above all of these, and above those that
it has assigned before. -/
theorem assigned_keys_fresh (s : Store) {name : String} {t : Table} (ht : s.table name = .ok t) (hempty : t.rows = [])
    (hnext : 1 ≤ t.nextKey.toInt) (calls : List Write) (hkeys : leaveKeys name s calls = true)
    (hroom : ∀ e ∈ entries name s calls, t.keyOf? e.2 ≠ some (.ofInt64 .maxValue)) :
    ∀ past, past <+: calls → ∃ t', (runAll s past).table name = .ok t' ∧ t'.primaryKey = t.primaryKey ∧
      t'.Leads (entries name s past) ∧
      ∀ earlier, earlier <+: past → ∀ old, (runAll s earlier).table name = .ok old → ∀ row ∈ old.rows, ∀ k,
        old.keyOf? row = some (.ofInt64 k) → k.toInt < t'.nextKey.toInt := by
  have hstart : t.Leads [] := by
    refine ⟨hnext, ?_, List.forall_mem_nil _, List.forall_mem_nil _, .nil⟩
    rw [Table.keyColumn, hempty]
    exact List.forall_mem_nil _
  have hlead : ∀ past, past <+: calls → ∃ t', (runAll s past).table name = .ok t' ∧ t'.primaryKey = t.primaryKey ∧
      t'.Leads (entries name s past) := by
    rintro past ⟨rest, rfl⟩
    rw [entries_append] at hroom
    exact runs_lead ht hstart (leaveKeys_of_append hkeys) (List.forall_mem_append.mp hroom).1
  intro past hpast
  obtain ⟨t', hrun, hkey, hleads⟩ := hlead past hpast
  refine ⟨t', hrun, hkey, hleads, ?_⟩
  rintro earlier hearlier old hold row hrow k hk
  obtain ⟨old', hold', hkey', hleads'⟩ := hlead earlier (hearlier.trans hpast)
  obtain rfl := Except.ok.inj (hold'.symm.trans hold)
  obtain ⟨e, he, hke⟩ := hleads'.held _ (List.mem_map_of_mem hrow)
  -- What the table had taken by then, it still counts as taken.
  obtain ⟨rest, rfl⟩ := hearlier
  have hmem : e ∈ entries name s (earlier ++ rest) := by
    rw [entries_append]
    exact List.mem_append_left _ he
  refine hleads.behind e hmem k ?_
  rw [Table.keyOf?_congr (hkey.trans hkey'.symm), hke, hk]

/-- A note, a note of a given key that is destroyed again, and one more. -/
def notes : List Write :=
  [.insertion "notes" (.create .empty), .insertion "notes" (.create (.ofList [("id", .ofInt64 7)])),
    .destroy "notes" [.ofInt64 7], .insertion "notes" (.create .empty)]

theorem assigned_keys_fresh_notes : ∃ t t', blank.table "notes" = .ok t ∧ t.rows = [] ∧ 1 ≤ t.nextKey.toInt ∧
    leaveKeys "notes" blank notes = true ∧
    (∀ e ∈ entries "notes" blank notes, t.keyOf? e.2 ≠ some (.ofInt64 .maxValue)) ∧
    (runAll blank notes).table "notes" = .ok t' ∧ t'.Leads (entries "notes" blank notes) := by
  have hkeys : leaveKeys "notes" blank notes = true := by decide
  have hroom : ∀ e ∈ entries "notes" blank notes,
      ({ primaryKey := "id" } : Table).keyOf? e.2 ≠ some (.ofInt64 .maxValue) := by
    decide
  obtain ⟨t', hrun, -, hleads, -⟩ := assigned_keys_fresh blank (t := { primaryKey := "id" }) rfl rfl (by decide) notes
    hkeys hroom notes List.prefix_rfl
  exact ⟨_, t', rfl, rfl, by decide, hkeys, hroom, hrun, hleads⟩

/-- The last note is not given the key of the one that is gone, nor any below it. -/
example : (entries "notes" blank notes).map (fun e => e.2.get? "id") =
    [some (.ofInt64 1), some (.ofInt64 7), some (.ofInt64 8)] := by
  decide

end Store

end RowQuery
