import OrgWeave.Proofs.Graph.Names
import OrgWeave.Proofs.Run.Files

/-!
# Errors as lines

A diagnostic is put out as an error directive with its message in quotes. The escapes of the message
can be undone, but newlines are not escaped. So the directive is one line, and reports the message,
exactly if the message has no newline (`Text.reports_errorLine_iff`).

A message has a newline exactly if one of the texts that it quotes has one
(`Error.oneLine_message_iff`). What is read off documents has none, nor have the words of flags.
What is handed to a run as it is can have newlines, though : the flags as a whole, which are quoted
if they are no parameter string, and the names of documents, which tell where something is declared
twice and what cannot be read. These are the ways to a directive that is broken into lines
(`Breaks`), and there are no others (`Disk.reports_iff`).
-/

namespace OrgWeave

open Text

/-! ## Lines that report -/

namespace Text

variable {s t : Text}

instance instDecidableOneLine (t : Text) : Decidable (OneLine t) :=
  inferInstanceAs (Decidable ('\n' ∉ t))

theorem oneLine_append : OneLine (s ++ t) ↔ OneLine s ∧ OneLine t := by
  simp [OneLine]

theorem oneLine_cons {c : Char} : OneLine (c :: t) ↔ '\n' ≠ c ∧ OneLine t := by
  simp [OneLine]

theorem oneLine_literal (h : OneLine t) : OneLine (String.ofList t).toList := by
  rwa [String.toList_ofList]

theorem oneLine_escape_iff : OneLine (escape t) ↔ OneLine t := by
  induction t with
  | nil => exact Iff.rfl
  | cons c t ih =>
    rw [escape]
    split
    · rw [oneLine_cons, oneLine_cons, oneLine_cons, ih]
      exact and_iff_right (by decide)
    · rw [oneLine_cons, oneLine_cons, ih]

/-- The line is an error directive with `body` between its quotes, which is read as `message`. -/
structure Reports (l : Line) (body message : Text) : Prop where
  quoted : l = "#error ".toList ++ quote :: body ++ [quote, '\n']
  single : splitLines l = [l]
  inside : '\n' ∉ body ∧ bareQuote body = false
  reads : unquote? body = some message

theorem errorLine_eq (t : Text) :
    errorLine t = ("#error ".toList ++ quote :: escape t ++ [quote]) ++ ['\n'] := by
  unfold errorLine
  generalize "#error ".toList = front
  simp

theorem reports_errorLine (h : OneLine t) : Reports (errorLine t) (escape t) t := by
  have hescape : OneLine (escape t) := oneLine_escape_iff.2 h
  have hreads : unquote? (escape t) = some t := by
    simpa [unquote?] using unquote?_escape_append [] h
  refine ⟨rfl, ?_, of_unquote?_eq_some hreads, hreads⟩
  have hline : OneLine ("#error ".toList ++ quote :: escape t ++ [quote]) := by
    rw [oneLine_append, oneLine_append, oneLine_cons]
    exact ⟨⟨by decide, by decide, hescape⟩, by decide⟩
  rw [errorLine_eq]
  exact splitLines_append [] hline

/-- The directive for a message reports it exactly if the message is on one line. -/
theorem reports_errorLine_iff : (∃ body, Reports (errorLine t) body t) ↔ OneLine t := by
  refine ⟨?_, fun h => ⟨_, reports_errorLine h⟩⟩
  rintro ⟨body, h⟩
  have hbody := List.append_cancel_left (List.append_cancel_right h.quoted)
  rw [List.cons.injEq, and_iff_right rfl] at hbody
  exact oneLine_escape_iff.1 (hbody ▸ h.inside.1)

/-! ## Messages -/

theorem oneLine_join {separator : Text} (hs : OneLine separator) :
    ∀ ts : List Text, OneLine (join separator ts) ↔ ∀ t ∈ ts, OneLine t
  | [] => by simp [join, OneLine]
  | [t] => by simp [join]
  | t :: u :: ts => by
    have ih := oneLine_join hs (u :: ts)
    unfold join at ih ⊢
    rw [List.intercalate_cons_cons, oneLine_append, oneLine_append, ih, and_iff_left hs,
      List.forall_mem_cons (a := t)]

theorem oneLine_ofNat (n : Nat) : OneLine (ofNat n) := by
  intro hmem
  have := Nat.isDigit_of_mem_toDigits (by decide) (by decide) hmem
  cases this

theorem oneLine_ofInt : ∀ n : Int, OneLine (ofInt n)
  | .ofNat n => oneLine_ofNat n
  | .negSucc n => oneLine_cons.2 ⟨by decide, oneLine_ofNat (n + 1)⟩

end Text

namespace Error

variable {t : Text}

/-- Wording on one line around a text leaves it to the text whether all of it is. -/
theorem oneLine_around {front back : Text} (hfront : OneLine front) (hback : OneLine back) :
    OneLine (front ++ t ++ back) ↔ OneLine t := by
  rw [oneLine_append, oneLine_append, and_iff_left hback, and_iff_right hfront]

theorem oneLine_ticked : OneLine (ticked t) ↔ OneLine t := oneLine_around (by decide) (by decide)

/-- The texts that the message of a diagnostic quotes. -/
def quoted : Error → List Text
  | .malformedParameters text => [text]
  | .duplicate _ name location => [name, location]
  | .unknownBlock name known => name :: known
  | .depthExceeded _ _ name => [name]
  | .invalidMaxDepth values => values
  | .badFilename path => [path]
  | .unparsableLine _ line => [stripRight line]
  | _ => []

/-- The wording of a diagnostic around the texts that it quotes is on one line. -/
theorem oneLine_message_iff {e : Error} (h : e.isDiagnostic = true) :
    OneLine e.message ↔ ∀ t ∈ e.quoted, OneLine t := by
  cases e with
  | malformedParameters text =>
    change OneLine (_ ++ ticked text ++ _) ↔ ∀ t ∈ [text], _
    rw [List.forall_mem_singleton]
    refine (oneLine_around ?_ ?_).trans oneLine_ticked <;> exact oneLine_literal (by decide)
  | duplicate what name location =>
    have hwhat : OneLine (declaredText what) := by cases what <;> decide
    have hplace : OneLine (if location = [] then [] else " (".toList ++ location ++ [')']) ↔
        OneLine location := by
      split
      next hnil => rw [hnil]
      next => exact oneLine_around (by decide) (by decide)
    change OneLine (_ ++ declaredText what ++ _ ++ ticked name ++ (if location = [] then [] else
      " (".toList ++ location ++ [')']) ++ _) ↔ ∀ t ∈ [name, location], _
    rw [oneLine_append, oneLine_append, oneLine_append, oneLine_append, oneLine_append,
      oneLine_ticked, hplace, List.forall_mem_cons, List.forall_mem_singleton]
    exact ⟨fun h => ⟨h.1.1.2, h.1.2⟩,
      fun h => ⟨⟨⟨⟨⟨oneLine_literal (by decide), hwhat⟩, by decide⟩, h.1⟩, h.2⟩, by decide⟩⟩
  | unknownBlock name known =>
    have hknown : OneLine (join ", ".toList (known.map ticked)) ↔ ∀ t ∈ known, OneLine t := by
      rw [oneLine_join (by decide), List.forall_mem_map]
      exact forall₂_congr fun _ _ => oneLine_ticked
    change OneLine (_ ++ ticked name ++ _ ++ join ", ".toList (known.map ticked) ++ _) ↔ _
    rw [oneLine_append, oneLine_append, oneLine_append, oneLine_append, oneLine_ticked, hknown,
      quoted, List.forall_mem_cons]
    exact ⟨fun h => ⟨h.1.1.1.2, h.1.2⟩, fun h =>
      ⟨⟨⟨⟨oneLine_literal (by decide), h.1⟩, oneLine_literal (by decide)⟩, h.2⟩, by decide⟩⟩
  | depthExceeded stage ceiling name =>
    have hstage : OneLine (stageText stage) := by cases stage <;> decide
    change OneLine (_ ++ stageText stage ++ _ ++ ofInt ceiling ++ _ ++ ticked name ++ _) ↔
      ∀ t ∈ [name], _
    rw [List.forall_mem_singleton]
    refine (oneLine_around ?_ ?_).trans oneLine_ticked
    · rw [oneLine_append, oneLine_append, oneLine_append, oneLine_append]
      exact ⟨⟨⟨⟨by decide, hstage⟩, oneLine_literal (by decide)⟩, oneLine_ofInt ceiling⟩,
        oneLine_literal (by decide)⟩
    · exact oneLine_literal (by decide)
  | conflictingFlags conflict =>
    refine iff_of_true ?_ fun _ ht => nomatch ht
    cases conflict <;> exact oneLine_literal (by decide)
  | missingFlags what =>
    refine iff_of_true ?_ fun _ ht => nomatch ht
    cases what <;> exact oneLine_literal (by decide)
  | invalidMaxDepth values =>
    change OneLine (_ ++ ofNat depthLimit ++ _ ++ ticked (unwords values) ++ _) ↔ ∀ t ∈ values, _
    have hspace : OneLine [' '] := by decide
    rw [← oneLine_join hspace, ← unwords]
    refine (oneLine_around ?_ ?_).trans oneLine_ticked
    · rw [oneLine_append, oneLine_append]
      exact ⟨⟨oneLine_literal (by decide), oneLine_ofNat depthLimit⟩, by decide⟩
    · decide
  | badFilename path =>
    change OneLine (_ ++ path ++ _) ↔ ∀ t ∈ [path], _
    rw [List.forall_mem_singleton]
    exact oneLine_around (by decide) (by decide)
  | unparsableLine index line =>
    change OneLine (_ ++ ofInt index ++ _ ++ ticked (stripRight line) ++ _) ↔
      ∀ t ∈ [stripRight line], _
    rw [List.forall_mem_singleton]
    refine (oneLine_around ?_ ?_).trans oneLine_ticked
    · rw [oneLine_append, oneLine_append]
      exact ⟨⟨oneLine_literal (by decide), oneLine_ofInt index⟩, by decide⟩
    · decide
  | _ => cases h

end Error

/-! ## What is on one line -/

/-- How a diagnostic of a run comes to a directive that is broken into lines. -/
inductive Breaks (names : List Text) (flags : Text) : Error → Prop
  | malformed (hflags : ¬OneLine flags) : Breaks names flags (.malformedParameters flags)
  | unread {name : Text} (hmem : name ∈ names) (hname : ¬OneLine name) :
      Breaks names flags (.badFilename name)
  | repeated {name : Text} (hmem : name ∈ names) (hname : ¬OneLine name) (what : Declared)
      (n : Text) (line : Nat) :
      Breaks names flags (.duplicate what n (name ++ ':' :: ofNat line))

/-- The error has a message on one line, or breaks it in one of these ways. -/
def Accounted (names : List Text) (flags : Text) (e : Error) : Prop :=
  e.isDiagnostic = true → OneLine e.message ∨ Breaks names flags e

variable {names : List Text} {flags : Text} {e : Error} {docs : List (Text × Text)}

theorem Breaks.not_oneLine (h : Breaks names flags e) : ¬OneLine e.message := by
  cases h with
  | malformed hflags =>
    rw [Error.oneLine_message_iff rfl]
    exact fun hall => hflags (hall _ List.mem_cons_self)
  | unread hmem hname =>
    rw [Error.oneLine_message_iff rfl]
    exact fun hall => hname (hall _ List.mem_cons_self)
  | repeated hmem hname what n line =>
    rw [Error.oneLine_message_iff rfl]
    intro hall
    obtain ⟨-, hplace⟩ := List.forall_mem_cons.1 hall
    exact hname (oneLine_append.1 (hplace _ List.mem_cons_self)).1

theorem Accounted.of_quoted (h : ∀ t ∈ e.quoted, OneLine t) : Accounted names flags e :=
  fun hdiagnostic => Or.inl ((Error.oneLine_message_iff hdiagnostic).2 h)

theorem Request.Stops.accounted (h : Stops flags e) : Accounted names flags e := by
  cases h with
  | missing what => exact .of_quoted fun _ ht => nomatch ht
  | conflicting conflict => exact .of_quoted fun _ ht => nomatch ht
  | malformed =>
    by_cases hflags : OneLine flags
    · exact .of_quoted (List.forall_mem_singleton.2 hflags)
    · exact fun _ => Or.inr (.malformed hflags)
  | @ceiling p values hp hvalues =>
    have hvalues : p.values Flag.maxDepth = values := by
      rw [Params.values, hvalues, Option.getD_some]
    exact .of_quoted fun v hv => (Params.endFree_of_mem_values hp (hvalues ▸ hv)).oneLine

theorem Corpus.exists_of_mem_rangesFrom {d : DocumentRange} :
    ∀ {docs : List (Text × Text)} {start : Nat}, d ∈ rangesFrom start docs →
      ∃ doc ∈ docs, doc.1 = d.name
  | [], _, h => nomatch h
  | doc :: docs, _, h => by
    rcases List.mem_cons.1 h with rfl | h
    · exact ⟨doc, List.mem_cons_self, rfl⟩
    · obtain ⟨other, hother, hname⟩ := exists_of_mem_rangesFrom h
      exact ⟨other, List.mem_cons_of_mem doc hother, hname⟩

/-- The place of a line is told by the name of a document and a number. -/
theorem Corpus.describe_eq_ok {i : Nat} {location : Text}
    (h : (ofTexts docs).describe i = .ok location) : ∃ name line,
      location = name ++ ':' :: ofNat line ∧
        (OneLine name ∨ ∃ doc ∈ docs, doc.1 = name) := by
  obtain ⟨⟨name, line⟩, hplace, h⟩ := bind_eq_ok.1 h
  cases h
  refine ⟨name, line, rfl, ?_⟩
  unfold locate at hplace
  split at hplace
  next =>
    split at hplace
    next d hd =>
      cases hplace
      unfold documentAt? at hd
      split at hd
      next => cases hd
      next =>
        obtain ⟨hd, -⟩ := Option.filter_eq_some_iff.1 hd
        exact Or.inr (exists_of_mem_rangesFrom (List.mem_of_getElem? hd))
    next =>
      cases hplace
      exact Or.inl (by decide)
  next => cases hplace

theorem Scan.Stops.accounted (hdocs : ∀ doc ∈ docs, OneLine doc.1 ∨ doc.1 ∈ names)
    (h : Stops (Corpus.ofTexts docs) e) : Accounted names flags e := by
  cases h with
  | @duplicate i d n location what hd hsubject hplace =>
    have hn : OneLine n := Corpus.oneLine_texts hd n (Directive.subject?_mem_texts hsubject)
    obtain ⟨name, line, rfl, hname⟩ := Corpus.describe_eq_ok hplace
    have hname : OneLine name ∨ name ∈ names := by
      rcases hname with hname | ⟨doc, hdoc, rfl⟩
      · exact Or.inl hname
      · exact hdocs doc hdoc
    by_cases hline : OneLine name
    · have hlocation : OneLine (name ++ ':' :: ofNat line) :=
        oneLine_append.2 ⟨hline, oneLine_cons.2 ⟨by decide, oneLine_ofNat line⟩⟩
      exact .of_quoted (List.forall_mem_cons.2 ⟨hn, List.forall_mem_singleton.2 hlocation⟩)
    · exact fun _ => Or.inr (.repeated (hname.resolve_left hline) hline what n line)
  | malformed hd =>
    obtain ⟨-, hparams⟩ := List.forall_mem_cons.1 (Corpus.oneLine_texts hd)
    exact .of_quoted hparams

theorem Graph.Stops.accounted {g : Graph} {collects : Bool} {o : WeaveOptions}
    (hg : ofCorpus (Corpus.ofTexts docs) collects = .ok g) (hself : OneLine o.selfName)
    (h : g.Stops o OneLine OneLine e) : Accounted names flags e := by
  cases h with
  | unknown hn => exact .of_quoted (List.forall_mem_cons.2 ⟨hn, oneLine_of_mem_knownNames hg⟩)
  | references ceiling hn => exact .of_quoted (List.forall_mem_singleton.2 hn)
  | markers hn => exact .of_quoted (List.forall_mem_singleton.2 hn)
  | call hflags =>
    refine .of_quoted (List.forall_mem_singleton.2 ?_)
    rw [callText, oneLine_append, oneLine_append, oneLine_cons]
    exact ⟨⟨hself, by decide, hflags⟩, by decide⟩
  | malformed hflags => exact .of_quoted (List.forall_mem_singleton.2 hflags)

/-! ## Runs -/

theorem Outcome.failsWith_accounted {request : Request}
    (hrequest : Request.ofText? flags = .ok request)
    (hdocs : ∀ doc ∈ docs, OneLine doc.1 ∨ doc.1 ∈ names) (root : Path) :
    FailsWith (Accounted names flags) (ofCorpus request (Corpus.ofTexts docs) root) := by
  obtain ⟨p, hp, hnested, -⟩ := Request.of_ofText? hrequest
  have hnames : ∀ n ∈ request.nested, OneLine n := by
    rw [hnested]
    exact fun n hn => (Params.endFree_of_mem_values hp hn).oneLine
  have hgraph : ∀ g, Graph.ofCorpus (Corpus.ofTexts docs) request.tangle = .ok g →
      g.Keeps Vocabulary.selfName OneLine OneLine ∧ ∀ row ∈ g.tangles, OneLine row.1 :=
    fun g hg => ⟨Graph.keeps_oneLine hg _, Graph.oneLine_of_mem_tangles hg⟩
  refine (failsWith_ofCorpus root hnames hgraph).mono fun e he => ?_
  rcases he with he | ⟨g, hg, he⟩
  · exact he.accounted hdocs
  · have hself : OneLine Vocabulary.selfName := by decide
    exact he.accounted hg hself

theorem mem_of_readDocuments {read : Reader} {paths : List Text}
    (h : readDocuments read paths = .ok docs) : ∀ doc ∈ docs, doc.1 ∈ paths := by
  intro doc hdoc
  obtain ⟨path, hpath, part, hpart, hmem⟩ := exists_of_mem_gather h hdoc
  obtain ⟨text, -, hpart⟩ := bind_eq_ok.1 hpart
  cases hpart
  rwa [List.mem_singleton.1 hmem]

namespace Disk

variable {d : Disk} {paths : List Text}

theorem read_eq_error {path : Text} (h : d.read path = .error e) :
    e = .nulInPath ∨ e = .badFilename path := by
  unfold read at h
  split at h
  · cases h
    exact Or.inl rfl
  · split at h
    · cases h
      exact Or.inr rfl
    · split at h
      · cases h
      · cases h
        exact Or.inr rfl

theorem failsWith_readDocuments (hpaths : ∀ path ∈ paths, OneLine path ∨ path ∈ names) :
    FailsWith (Accounted names flags) (readDocuments d.read paths) := by
  refine .gather fun path hpath => .bind (fun e he => ?_) fun _ _ => .ok _
  rcases read_eq_error he with rfl | rfl
  · exact fun hdiagnostic => nomatch hdiagnostic
  · by_cases hline : OneLine path
    · exact .of_quoted (List.forall_mem_singleton.2 hline)
    · exact fun _ => Or.inr (.unread ((hpaths path hpath).resolve_left hline) hline)

/-- The documents that flags add have names on one line. -/
theorem oneLine_or_mem_of_mergeNames {request : Request} (names : List Text)
    (hrequest : Request.ofText? flags = .ok request) :
    ∀ path ∈ mergeNames names request.documents, OneLine path ∨ path ∈ names := by
  obtain ⟨p, hp, -, hdocuments⟩ := Request.tangle_documents_of_ofText? hrequest
  intro path hpath
  rw [mergeNames, List.mem_eraseDups, List.mem_append, hdocuments] at hpath
  rcases hpath with hpath | hpath
  · exact Or.inr hpath
  · exact Or.inl (Params.endFree_of_mem_values hp hpath).oneLine

theorem failsWith_run (d : Disk) (paths : List Text) (flags : Text) (root : Path) :
    FailsWith (Accounted paths flags) (OrgWeave.run d.read paths flags root) := by
  have hflags : FailsWith (Accounted paths flags) (Request.ofText? flags) :=
    (Request.failsWith_ofText? flags).mono fun _ he => he.accounted
  refine hflags.bind fun request hrequest => ?_
  have hpaths := oneLine_or_mem_of_mergeNames paths hrequest
  refine (failsWith_readDocuments hpaths).bind fun docs hdocs => ?_
  exact Outcome.failsWith_accounted hrequest
    (fun doc hdoc => hpaths _ (mem_of_readDocuments hdocs doc hdoc)) root

theorem failsWith_runTexts (d : Disk) (docs : List (Text × Text)) (flags : Text) (root : Path) :
    FailsWith (Accounted (docs.map Prod.fst) flags) (OrgWeave.runTexts d.read docs flags root) := by
  have hflags : FailsWith (Accounted (docs.map Prod.fst) flags) (Request.ofText? flags) :=
    (Request.failsWith_ofText? flags).mono fun _ he => he.accounted
  refine hflags.bind fun request hrequest => ?_
  have hpaths := oneLine_or_mem_of_mergeNames (docs.map Prod.fst) hrequest
  refine (failsWith_readDocuments ?_).bind fun extra hextra => ?_
  · exact fun path hpath => hpaths path (List.mem_of_mem_filter hpath)
  refine Outcome.failsWith_accounted hrequest (fun doc hdoc => ?_) root
  rcases List.mem_append.1 hdoc with hdoc | hdoc
  · exact Or.inr (List.mem_map_of_mem hdoc)
  · exact hpaths _ (List.mem_of_mem_filter (mem_of_readDocuments hextra doc hdoc))

/-- A diagnostic of a run comes to one line that reports its message, unless flags that are no
parameter string or the name of a document break the line, in a message that quotes them. -/
theorem reports_iff (d : Disk) (paths : List Text) (docs : List (Text × Text)) (flags : Text)
    (root : Path) :
    (∀ e, (d.run paths flags root).2 = .error e → e.isDiagnostic = true →
      ((∃ body, Reports (errorLine e.message) body e.message) ↔ ¬Breaks paths flags e)) ∧
    ∀ e, (d.runTexts docs flags root).2 = .error e → e.isDiagnostic = true →
      ((∃ body, Reports (errorLine e.message) body e.message) ↔
        ¬Breaks (docs.map Prod.fst) flags e) := by
  have hreports : ∀ {result : Except Error Outcome} {names : List Text},
      FailsWith (Accounted names flags) result → ∀ e,
        (d.deliver (·.files) result).2 = .error e → e.isDiagnostic = true →
          ((∃ body, Reports (errorLine e.message) body e.message) ↔ ¬Breaks names flags e) := by
    intro result names hfails e he hdiagnostic
    rw [reports_errorLine_iff]
    rcases deliver_error he with ⟨hresult, -⟩ | hrefuses
    · refine ⟨fun hline hbreaks => hbreaks.not_oneLine hline, fun hunbroken => ?_⟩
      exact (hfails e hresult hdiagnostic).resolve_right hunbroken
    · rw [hrefuses.not_isDiagnostic] at hdiagnostic
      cases hdiagnostic
  exact ⟨hreports (failsWith_run d paths flags root),
    hreports (failsWith_runTexts d docs flags root)⟩

/-- Flags and a path that hold newlines break the lines of their errors. A name that holds a quote
and a backslash does not. -/
theorem torn_breaks :
    ((Disk.empty "w".toList).runTexts [] "tea\npot".toList .here).2 =
        .error (.malformedParameters "tea\npot".toList) ∧
      (¬∃ body, Reports (errorLine (Error.malformedParameters "tea\npot".toList).message) body
        (Error.malformedParameters "tea\npot".toList).message) ∧
      ((Disk.empty "w".toList).run ["d\n.org".toList] ":noweb tea".toList .here).2 =
        .error (.badFilename "d\n.org".toList) ∧
      (¬∃ body, Reports (errorLine (Error.badFilename "d\n.org".toList).message) body
        (Error.badFilename "d\n.org".toList).message) ∧
      ((Disk.empty "w".toList).runTexts [] ":noweb \x22\\".toList .here).2 =
        .error (.unknownBlock "\x22\\".toList []) ∧
      ∃ body, Reports (errorLine (Error.unknownBlock "\x22\\".toList []).message) body
        (Error.unknownBlock "\x22\\".toList []).message := by
  have hflags : ((Disk.empty "w".toList).runTexts [] "tea\npot".toList .here).2 =
      .error (.malformedParameters "tea\npot".toList) := by
    decide +kernel
  have hpath : ((Disk.empty "w".toList).run ["d\n.org".toList] ":noweb tea".toList .here).2 =
      .error (.badFilename "d\n.org".toList) := by
    decide +kernel
  have hname : ((Disk.empty "w".toList).runTexts [] ":noweb \x22\\".toList .here).2 =
      .error (.unknownBlock "\x22\\".toList []) := by
    decide +kernel
  have htorn := (reports_iff (.empty "w".toList) [] [] "tea\npot".toList .here).2 _ hflags rfl
  have hunread := (reports_iff (.empty "w".toList) ["d\n.org".toList] [] ":noweb tea".toList
    .here).1 _ hpath rfl
  have hunknown := (reports_iff (.empty "w".toList) [] [] ":noweb \x22\\".toList .here).2 _ hname
    rfl
  refine ⟨hflags, fun h => htorn.1 h (.malformed (by decide)), hpath,
    fun h => hunread.1 h (.unread List.mem_cons_self (by decide)), hname, hunknown.2 ?_⟩
  rintro ⟨⟩

end Disk

end OrgWeave
