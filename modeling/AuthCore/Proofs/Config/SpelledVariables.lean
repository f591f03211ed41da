import AuthCore.Proofs.Config.LayerOrder
import AuthCore.Proofs.Config.TextPlaces

/-!
What a variable of the environment is to a field that holds a text. Its value is read as the
narrowest kind that fits and then put into words again, so the field gets the text that a settings
file would have to give, which is the variable's own text unless that spells a truth value or a
number.
-/

set_option autoImplicit false

namespace AuthCore.Config

namespace Environment

/-- The text that a variable stands for: words in lower case, numbers as they are printed, and any
other text as it is. -/
def spelled (s : String) : String :=
  let word := String.ofList (s.toList.map Char.toLower)
  if word = "true" ∨ word = "false" then word
  else
    match Text.Decimal.readInt64? s.toList with
    | some i => Raw.writeInt i
    | none =>
      match Binary64.read? s.toList with
      | some x => Shortest.plain.write x
      | none => s

theorem text?_value (s : String) : (value s).text? = some (spelled s) := by
  simp only [value, spelled]
  by_cases htrue : String.ofList (s.toList.map Char.toLower) = "true"
  · simp [htrue, Raw.text?]
  by_cases hfalse : String.ofList (s.toList.map Char.toLower) = "false"
  · simp [hfalse, Raw.text?]
  simp only [htrue, hfalse, or_self, if_false]
  cases Text.Decimal.readInt64? s.toList with
  | some i => rfl
  | none => cases Binary64.read? s.toList <;> rfl

theorem worded_value (s : String) : (value s).worded = .text (spelled s) := by
  rw [Raw.worded, text?_value]
  rfl

theorem value_ne_table (s : String) (es : List (String × Raw)) : value s ≠ .table es := by
  intro h
  have htext := text?_value s
  rw [h] at htext
  cases htext

theorem spelled_of_value {s : String} (h : value s = .text s) : spelled s = s := by
  have htext := text?_value s
  rw [h] at htext
  exact (Option.some.inj htext).symm

end Environment

open Environment (value spelled)

def Field.textOf (f : Field) (h : f.shape = .text) (s : Settings) : String :=
  cast (congrArg Shape.Value h) (f.get s)

theorem Field.ofFound?_text {f : Field} (h : f.shape = .text) {v : Raw} {s : Settings} :
    f.ofFound? (some v) = some (f.get s) ↔ v.text? = some (f.textOf h s) := by
  cases f with
  | provider | url | remoteKeyPrefix | secretEnv | keyDir | passphraseEnv | issuer | audience
  | keyPrefix | level | format => exact Iff.rfl
  | _ => cases h

theorem Field.ofFound?_congr {f : Field} (h : f.shape = .text) {v w : Raw}
    (hvw : v.text? = w.text?) : f.ofFound? (some v) = f.ofFound? (some w) := by
  cases f with
  | provider | url | remoteKeyPrefix | secretEnv | keyDir | passphraseEnv | issuer | audience
  | keyPrefix | level | format => exact hvw
  | _ => cases h

section Alone

variable {formats : List Format} {disk disk' : Files.Disk} {name var v : String} {f : Field}
  {others : List (String × Bytes)}

theorem assignAll_nest (f : Field) (v r : Raw) :
    Raw.assignAll (Raw.nest f.path v).entries r = Raw.assign f.name v r := by
  obtain ⟨name, hname, rest, hpath⟩ := f.exists_path
  have hput := Raw.merge_nest rest v ((r.entries.lookup name).getD .vacant)
  rw [Raw.assign, f.ofName_name, hpath, Raw.nest, Raw.entries, Raw.assignAll, List.foldl_cons,
    List.foldl_nil, Raw.assign, Path.ofName_of_mem_sections hname, List.map_cons, Raw.put, Raw.put,
    Raw.put, hput]

/-- A variable, or the document that has its text for the same field. -/
theorem decode?_combine_spelled (hf : f.shape = .text) (v : String)
    (base layer : List (String × Raw)) :
    decode? (combine [base, [], (f.name, value v) :: layer]) =
      decode? (combine [base, (Raw.nest f.path (.text (spelled v))).entries, layer]) := by
  have hput (r : Raw) : Raw.SameWords f.path (Raw.assign f.name (value v) r)
      (Raw.assignAll (Raw.nest f.path (.text (spelled v))).entries r) := by
    rw [assignAll_nest, Raw.assign, f.ofName_name, Raw.assign, f.ofName_name]
    exact Raw.sameWords_put (w := .text (spelled v)) (Environment.value_ne_table v) (by simp)
      (Environment.worded_value v) _ r
  have hwords := (hput (Raw.assignAll base (.table []))).assignAll layer
  have hread := f.readsWords hf
  exact (hread _).symm.trans ((congrArg _ hwords).trans (hread _))

theorem load_first_variable (hf : f.shape = .text)
    (hvar : Environment.name? var = some f.name)
    (hdefault : findFile formats disk' "config/default" = findFile formats disk "config/default")
    (hown : findFile formats disk ("config/" ++ name) = none)
    (hown' : findFile formats disk' ("config/" ++ name) =
      some (.toml, Text.Utf8.encode (Toml.document f (spelled v)))) :
    load formats disk ((var, Text.Utf8.encode v) :: others) name =
      load formats disk' others name := by
  have hbase : fileLayer? formats disk' "config/default" =
      fileLayer? formats disk "config/default" := by
    rw [fileLayer?, hdefault, fileLayer?]
  have hempty : fileLayer? formats disk ("config/" ++ name) = some [] := by rw [fileLayer?, hown]
  have hdocument := Toml.read?_document f (spelled v)
  have hnest : fileLayer? formats disk' ("config/" ++ name) =
      some (Raw.nest f.path (.text (spelled v))).entries :=
    (fileLayer?_encode _ hown' (hdocument ▸ rfl)).trans hdocument
  unfold load layers?
  rw [Environment.layer?_cons_some (e := (var, _)) hvar, Text.Utf8.decode?_encode, hbase, hempty,
    hnest]
  cases fileLayer? formats disk "config/default" with
  | none => rfl
  | some base =>
    cases Environment.layer? others with
    | none => rfl
    | some layer =>
      dsimp
      rw [decode?_combine_spelled hf]

end Alone

section Among

variable {formats : List Format} {disk disk' : Files.Disk} {name var v : String} {f : Field}
  {before after : List (String × Bytes)} {base own own' : List (String × Raw)}

theorem Environment.setting?_append (name : String) (first second : List (String × Bytes)) :
    setting? (first ++ second) name = (setting? first name).or (setting? second name) :=
  List.findSome?_append

theorem Environment.setting?_cons_of_ne {e : String × Bytes} {name : String}
    (h : name? e.1 ≠ some name) (rest : List (String × Bytes)) :
    setting? (e :: rest) name = setting? rest name := by
  rw [setting?, List.findSome?_cons, if_neg h]
  rfl

theorem Environment.setting?_eq_none {environment : List (String × Bytes)} {name : String}
    (h : name ∉ environment.filterMap fun e => name? e.1) : setting? environment name = none := by
  refine List.findSome?_eq_none_iff.mpr fun e he => if_neg fun hname => h ?_
  exact List.mem_filterMap.mpr ⟨e, he, hname⟩

theorem setting?_among (hvar : Environment.name? var = some f.name)
    (h : Environment.NamesFields (before ++ (var, Text.Utf8.encode v) :: after)) (g : Field) :
    Environment.setting? (before ++ (var, Text.Utf8.encode v) :: after) g.name =
        (if g = f then some (value v) else Environment.setting? (before ++ after) g.name) ∧
      Environment.setting? (before ++ after) f.name = none := by
  have hdistinct := h.distinct
  rw [List.filterMap_append, List.filterMap_cons_some (by exact hvar)] at hdistinct
  have hnotin : f.name ∉ (before ++ after).filterMap fun e => Environment.name? e.1 := by
    rw [List.filterMap_append]
    exact (List.nodup_middle.mp hdistinct).notMem
  refine ⟨?_, Environment.setting?_eq_none hnotin⟩
  rw [Environment.setting?_append]
  by_cases hg : g = f
  · subst hg
    rw [List.filterMap_append, List.mem_append, not_or] at hnotin
    rw [if_pos rfl, Environment.setting?_eq_none hnotin.1, Environment.setting?,
      List.findSome?_cons, if_pos hvar, Text.Utf8.decode?_encode]
    rfl
  · have hne : Environment.name? var ≠ some g.name := fun heq =>
      hg (Field.name_injective (Option.some.inj (heq.symm.trans hvar)))
    rw [if_neg hg, Environment.setting?_cons_of_ne (e := (var, _)) hne,
      ← Environment.setting?_append]

theorem Environment.NamesFields.without {e : String × Bytes}
    (h : NamesFields (before ++ e :: after)) : NamesFields (before ++ after) := by
  have hsublist : (before ++ after).Sublist (before ++ e :: after) :=
    List.Sublist.append_left (List.sublist_cons_self e after) before
  exact ⟨fun e' he' => h.text e' (hsublist.mem he'), fun e' he' => h.field e' (hsublist.mem he'),
    h.distinct.sublist (hsublist.filterMap _)⟩

theorem load_congr {environment environment' : List (String × Bytes)}
    (hbase : fileLayer? formats disk "config/default" = some base)
    (hbase' : fileLayer? formats disk' "config/default" = some base)
    (hown : fileLayer? formats disk ("config/" ++ name) = some own)
    (hown' : fileLayer? formats disk' ("config/" ++ name) = some own') (hbaseTabled : Tabled base)
    (hownTabled : Tabled own) (hownTabled' : Tabled own')
    (henvironment : Environment.NamesFields environment)
    (henvironment' : Environment.NamesFields environment')
    (h : ∀ f : Field, f.ofFound? (chosen base own environment f) =
      f.ofFound? (chosen base own' environment' f)) :
    load formats disk environment name = load formats disk' environment' name := by
  obtain ⟨layers, hlayers, hread⟩ := exists_layers?_chosen hbase hown hbaseTabled hownTabled
    henvironment
  obtain ⟨layers', hlayers', hread'⟩ := exists_layers?_chosen hbase' hown' hbaseTabled hownTabled'
    henvironment'
  have hdecode : decode? (combine layers) = decode? (combine layers') := by
    refine Option.ext fun s => ?_
    rw [hread, hread']
    simp only [h]
  rw [load, load, hlayers, hlayers']
  dsimp only
  rw [hdecode]

theorem load_variable_among (hf : f.shape = .text) (hvar : Environment.name? var = some f.name)
    (hbase : fileLayer? formats disk "config/default" = some base)
    (hbase' : fileLayer? formats disk' "config/default" = some base)
    (hown : fileLayer? formats disk ("config/" ++ name) = some own)
    (hown' : fileLayer? formats disk' ("config/" ++ name) = some own') (hbaseTabled : Tabled base)
    (hownTabled : Tabled own) (hownTabled' : Tabled own')
    (hfield : (Raw.table own').at? f.path = some (.text (spelled v)))
    (hothers : ∀ g : Field, g ≠ f → (Raw.table own').at? g.path = (Raw.table own).at? g.path)
    (henvironment : Environment.NamesFields (before ++ (var, Text.Utf8.encode v) :: after)) :
    load formats disk (before ++ (var, Text.Utf8.encode v) :: after) name =
        load formats disk' (before ++ after) name ∧
      ∀ s, load formats disk (before ++ (var, Text.Utf8.encode v) :: after) name = .ok s →
        f.textOf hf s = spelled v := by
  have hchosen : chosen base own (before ++ (var, Text.Utf8.encode v) :: after) f =
      some (value v) := by
    rw [chosen, (setting?_among hvar henvironment f).1, if_pos rfl]
    rfl
  constructor
  · refine load_congr hbase hbase' hown hown' hbaseTabled hownTabled hownTabled' henvironment
      henvironment.without fun g => ?_
    obtain ⟨hsetting, hnone⟩ := setting?_among hvar henvironment g
    by_cases hg : g = f
    · subst hg
      rw [hchosen, chosen, hnone, hfield]
      exact Field.ofFound?_congr hf (Environment.text?_value v)
    · rw [chosen, chosen, hsetting, if_neg hg, hothers g hg]
  · intro s hs
    have hread := ((load_eq_ok_iff_chosen hbase hown hbaseTabled hownTabled henvironment).mp hs).1 f
    rw [hchosen, Field.ofFound?_text hf, Environment.text?_value] at hread
    exact (Option.some.inj hread).symm

end Among

/-- A variable for a text field does what the file of the run does that says the field is what the
variable spells, be it the file's only setting or one beside others; wherever settings are loaded,
the field holds just that. It is the variable's own text where that reads as nothing narrower. -/
theorem variable_loads_as_spelled_text (f : Field) (hf : f.shape = .text) {var : String}
    (hvar : Environment.name? var = some f.name) (v : String) :
    (value v = .text v → spelled v = v) ∧
    (∀ (formats : List Format) (disk disk' : Files.Disk) (name : String)
      (others : List (String × Bytes)),
      findFile formats disk' "config/default" = findFile formats disk "config/default" →
      findFile formats disk ("config/" ++ name) = none →
      findFile formats disk' ("config/" ++ name) =
        some (.toml, Text.Utf8.encode (Toml.document f (spelled v))) →
      load formats disk ((var, Text.Utf8.encode v) :: others) name =
        load formats disk' others name) ∧
    ∀ (formats : List Format) (disk disk' : Files.Disk) (name : String)
      (before after : List (String × Bytes)) (base own own' : List (String × Raw)),
      fileLayer? formats disk "config/default" = some base →
      fileLayer? formats disk' "config/default" = some base →
      fileLayer? formats disk ("config/" ++ name) = some own →
      fileLayer? formats disk' ("config/" ++ name) = some own' →
      Tabled base → Tabled own → Tabled own' →
      (Raw.table own').at? f.path = some (.text (spelled v)) →
      (∀ g : Field, g ≠ f → (Raw.table own').at? g.path = (Raw.table own).at? g.path) →
      Environment.NamesFields (before ++ (var, Text.Utf8.encode v) :: after) →
      load formats disk (before ++ (var, Text.Utf8.encode v) :: after) name =
          load formats disk' (before ++ after) name ∧
        ∀ s, load formats disk (before ++ (var, Text.Utf8.encode v) :: after) name = .ok s →
          f.textOf hf s = spelled v := by
  refine ⟨Environment.spelled_of_value, fun formats disk disk' name others hdefault hown hown' =>
    load_first_variable hf hvar hdefault hown hown', ?_⟩
  intro formats disk disk' name before after base own own' hbase hbase' hown hown' hbaseTabled
    hownTabled hownTabled' hfield hothers henvironment
  exact load_variable_among hf hvar hbase hbase' hown hown' hbaseTabled hownTabled hownTabled'
    hfield hothers henvironment

section Example

def lone (text : String) : Files.Disk := fun path =>
  if path = "config/live.toml" then .file (Text.Utf8.encode text) else .missing

def audienceVariable : String × Bytes := ("WARDEN__SIGNING__AUDIENCE", Text.Utf8.encode "007")

def providerVariable : String × Bytes := ("WARDEN__CACHE__PROVIDER", Text.Utf8.encode "redis")

/-- A text of digits loses its zeros in a variable, and keeps them in a file. -/
theorem zeros_lost_from_variable :
    Environment.name? audienceVariable.1 = some Field.audience.name ∧
    load Format.known (fun _ => .missing) [audienceVariable] "live" =
      .ok { signing := { audience := "7" } } ∧
    load Format.known (lone (Toml.document .audience "007")) [] "live" =
      .ok { signing := { audience := "007" } } ∧
    load Format.known (fun _ => .missing) [audienceVariable] "live" ≠
      load Format.known (lone (Toml.document .audience "007")) [] "live" := by
  decide +kernel

theorem names_variables : Environment.name? audienceVariable.1 = some Field.audience.name ∧
    Environment.name? providerVariable.1 = some Field.provider.name := by
  decide +kernel

theorem namesFields_audienceVariable :
    Environment.NamesFields ([providerVariable] ++ audienceVariable :: []) where
  text := by
    intro e he _
    simp only [List.singleton_append, List.mem_cons, List.not_mem_nil, or_false] at he
    rcases he with rfl | rfl
    · rw [providerVariable, Text.Utf8.decode?_encode, Option.isSome_some]
    · rw [audienceVariable, Text.Utf8.decode?_encode, Option.isSome_some]
  field := by
    intro e he name hname
    simp only [List.singleton_append, List.mem_cons, List.not_mem_nil, or_false] at he
    rcases he with rfl | rfl
    · exact ⟨.provider, Option.some.inj (hname.symm.trans names_variables.2)⟩
    · exact ⟨.audience, Option.some.inj (hname.symm.trans names_variables.1)⟩
  distinct := by
    simp only [List.singleton_append, List.filterMap_cons, names_variables]
    decide

theorem tabled_audience : Tabled (Raw.nest Field.audience.path (.text "7")).entries :=
  .of_sections (fun f => by
    cases f <;> simp [Raw.nest, Field.path, Raw.TablesAlong, Raw.entries, List.lookup])
    (by simp [Raw.nest, Field.path, Raw.entries, sections])

theorem audience_variable_loads_as_seven :
    load Format.known (fun _ => .missing) [audienceVariable] "live" =
        load Format.known (lone (Toml.document .audience "7")) [] "live" ∧
      load Format.known (fun _ => .missing) ([providerVariable] ++ audienceVariable :: []) "live" =
        load Format.known (lone (Toml.document .audience "7")) [providerVariable] "live" ∧
      ∀ s, load Format.known (fun _ => .missing) ([providerVariable] ++ audienceVariable :: [])
          "live" = .ok s → Field.audience.textOf rfl s = "7" := by
  have hspelled : spelled "007" = "7" := by decide +kernel
  obtain ⟨-, halone, hamong⟩ :=
    variable_loads_as_spelled_text .audience rfl names_variables.1 "007"
  rw [hspelled] at halone hamong
  have hlive : findFile Format.known (lone (Toml.document .audience "7")) "config/live" =
      some (.toml, Text.Utf8.encode (Toml.document .audience "7")) :=
    findFile_of_first rfl rfl (by rw [withEnding_toml.2, lone, if_pos rfl]) _
  have hread := Toml.read?_document .audience "7"
  have hnoDefault : findFile Format.known (lone (Toml.document .audience "7")) "config/default" =
      none := Option.isNone_iff_eq_none.mp (by decide +kernel)
  have hfile : fileLayer? Format.known (lone (Toml.document .audience "7")) "config/live" =
      some (Raw.nest Field.audience.path (.text "7")).entries :=
    (fileLayer?_encode _ hlive (hread ▸ rfl)).trans hread
  have hdefault : fileLayer? Format.known (lone (Toml.document .audience "7")) "config/default" =
      some [] := by
    rw [fileLayer?, hnoDefault]
  have hnone : Tabled [] := .of_sections (fun f => by
    cases f <;> simp [Field.path, Raw.TablesAlong, Raw.entries]) (by simp)
  refine ⟨halone Format.known _ _ "live" [] hnoDefault rfl hlive, ?_⟩
  refine hamong Format.known _ _ "live" [providerVariable] [] [] [] _ rfl hdefault rfl hfile hnone
    hnone tabled_audience rfl (fun g hg => ?_) namesFields_audienceVariable
  cases g with
  | audience => exact absurd rfl hg
  | _ => rfl

end Example

end AuthCore.Config
