import Datapath.Proofs.Graph.Built
import Datapath.Proofs.Picture

/-!
# Drawings of graphs

What is read when a drawing of a graph is read. The quotes of labels are escaped, those of the title
are not. Main statement: the drawing shows the title and the label of every node, in their order,
exactly if the title has no quotes and neither the title nor a label ends with a backslash.
-/

namespace Datapath

namespace Drawing

open Text Datapath.Graph

variable {cs : List Char}

/-! ## Identifiers -/

private theorem plain_of_isDigit {c : Char} (h : isDigit c = true) : Plain c := by
  refine ⟨ne_of_isDigit h (by decide), isBlank_of_isDigit h, ?_⟩
  have hmarks : marks.all (fun mark ↦ !isDigit mark) = true := by decide
  rw [Bool.eq_false_iff, Ne, List.contains_iff_mem]
  intro hmem
  have hmark := List.all_eq_true.mp hmarks c hmem
  rw [h] at hmark
  cases hmark

/-- The letters of the name of a node. -/
def identifier (id : Int) : List Char := 'n' :: (toString id).toList

private theorem plain_identifier (id : Int) : ∀ c ∈ identifier id, Plain c := by
  intro c hc
  rcases List.mem_cons.mp hc with rfl | hc
  · decide
  · rcases eq_minus_or_isDigit_of_mem_toString hc with rfl | hdigit
    · decide
    · exact plain_of_isDigit hdigit

theorem run_identifier {c : Char} (id : Int) (hc : ¬ Plain c) (cs : List Char) :
    run (.outside []) (identifier id ++ c :: cs) =
      (.word ("n" ++ toString id) :: (run (.outside []) (c :: cs)).1,
        (run (.outside []) (c :: cs)).2) := by
  rw [run_of_eq (run_word (plain_identifier id) []), run_break hc]
  simp [flush, identifier]

private theorem contains_keywords_identifier (id : Int) :
    keywords.contains ("n" ++ toString id) = false := by
  rw [Bool.eq_false_iff, Ne, List.contains_iff_mem]
  intro hmem
  have hletters : 'n' :: (toString id).toList ∈ keywords.map String.toList := by
    have hname : ("n" ++ toString id).toList = 'n' :: (toString id).toList := by
      rw [String.toList_append]
      rfl
    rw [← hname]
    exact List.mem_map_of_mem hmem
  have hode : (toString id).toList = ['o', 'd', 'e'] := by
    simpa [keywords] using hletters
  have ho := eq_minus_or_isDigit_of_mem_toString (n := id) (c := 'o') (by rw [hode]; decide)
  revert ho
  decide

/-! ## Lines of nodes -/

theorem run_indent (cs : List Char) :
    run (.outside []) (' ' :: ' ' :: cs) = run (.outside []) cs := by
  have hindent : run (.outside []) [' ', ' '] = ([], .outside []) := by decide
  exact run_of_eq hindent cs

/-- What stands before the label of a node. -/
def nodeStart (id : Int) : List Char := ' ' :: ' ' :: (identifier id ++ " [label=\"".toList)

/-- What stands after the quote of the label of a node. -/
def nodeEnd (kind : Kind) : List Char :=
  (if (look kind).isEmpty then "" else ", ").toList ++ (look kind).toList ++ "];".toList

theorem toList_nodeLine (id : Int) (label : String) (kind : Kind) :
    (nodeLine (toString id) label kind).toList =
      nodeStart id ++ (escapeQuotes label).toList ++ '"' :: nodeEnd kind := by
  simp only [nodeLine, String.toList_append, nodeStart, nodeEnd, identifier, List.append_assoc,
    List.cons_append]
  rfl

/-- The tokens before the label of a node. -/
def nodeTokens (id : Int) : List Token :=
  [.word ("n" ++ toString id), .mark '[', .word "label", .mark '=']

private theorem run_nodeStart (id : Int) :
    run (.outside []) (nodeStart id) = (nodeTokens id, .inside []) := by
  have hlabel : run (.outside []) (' ' :: "[label=\"".toList) =
      ([.mark '[', .word "label", .mark '='], .inside []) := by decide
  have hstart : nodeStart id = ' ' :: ' ' :: (identifier id ++ ' ' :: "[label=\"".toList) := rfl
  rw [hstart, run_indent, run_identifier id (by decide), hlabel]
  rfl

theorem run_nodeLabel (id : Int) (label : String) :
    run (.outside []) (nodeStart id ++ (escapeQuotes label).toList) =
      (nodeTokens id, .inside label.toList) := by
  rw [run_of_eq (run_nodeStart id), escapeQuotes, String.toList_ofList, run_escaped]
  simp

private theorem isRest_nodeEnd (kind : Kind) : isRest (nodeEnd kind) = true := by
  cases kind <;> decide +kernel

theorem isEnd_nodeTokens (id : Int) : ∀ t ∈ nodeTokens id, isEnd t = false := by
  simp [nodeTokens, isEnd]

theorem writes_nodeLine (id : Int) {label : String} (kind : Kind)
    (hclose : Closes label.toList) :
    ∃ tail, Writes (nodeLine (toString id) label kind).toList
      (nodeTokens id ++ [.quoted label] ++ tail) := by
  have hrun := run_quote hclose (run_nodeLabel id label)
  rw [String.ofList_toList] at hrun
  refine ⟨_, writes_of_isRest ?_ ?_ (isRest_nodeEnd kind)⟩
  · rw [toList_nodeLine, List.append_cons, run_of_eq hrun]
  · intro t ht
    rcases List.mem_append.mp ht with ht | ht
    · exact isEnd_nodeTokens id t ht
    · rw [List.mem_singleton.mp ht]
      rfl

/-! ## Lines of edges -/

theorem idle_edge {c : Char} (source target : Int) (hc : ¬ Plain c) (h : isRest (c :: cs) = true) :
    Idle ("  n".toList ++ ((toString source).toList ++
      (" -> n".toList ++ ((toString target).toList ++ c :: cs)))) := by
  have harrow : run (.outside []) (' ' :: "-> ".toList) = ([.word "->"], .outside []) := by decide
  have hrun : run (.outside []) (' ' :: ' ' :: (identifier source ++
      ' ' :: ("-> ".toList ++ (identifier target ++ c :: cs)))) =
      ([.word ("n" ++ toString source), .word "->", .word ("n" ++ toString target)] ++
        (run (.outside []) (c :: cs)).1, (run (.outside []) (c :: cs)).2) := by
    rw [run_indent, run_identifier source (by decide), ← List.cons_append, run_of_eq harrow,
      run_identifier target hc]
    rfl
  exact ⟨_, writes_of_isRest hrun (by simp [isEnd]) h, rfl, rfl⟩

private theorem idle_of_mem_edgeLines {id : Int} {kind : Kind} {operands : List Int} {line : String}
    (h : line ∈ edgeLines (toString id) kind (operands.map toString)) : Idle line.toList := by
  obtain ⟨position, hposition, rfl⟩ := List.mem_mapIdx.mp h
  obtain ⟨operand, hoperand⟩ : ∃ operand, (operands.map toString)[position] = toString operand :=
    ⟨_, List.getElem_map _⟩
  rw [hoperand]
  dsimp only
  simp only [String.toList_append, List.append_assoc]
  split
  · exact idle_edge operand id (by decide)
      (by decide : isRest (' ' :: "[label=\"sel\"];".toList) = true)
  · exact idle_edge operand id (by decide) (by decide : isRest [';'] = true)

private theorem idle_of_mem_linkLines {write : Option Int} {reads : List Int} {line : String}
    (h : line ∈ linkLines (write.map toString) (reads.map toString)) : Idle line.toList := by
  cases write with
  | none => cases h
  | some write =>
    obtain ⟨read, hread, rfl⟩ := List.mem_map.mp h
    obtain ⟨id, -, rfl⟩ := List.mem_map.mp hread
    simp only [String.toList_append, List.append_assoc]
    exact idle_edge write id (by decide)
      (by decide : isRest (' ' :: "[style=dashed, color=blue];".toList) = true)

private theorem nodeOf?_node (id : Int) (label : String) (tail : List Token) :
    nodeOf? (nodeTokens id ++ .quoted label :: tail) = some ("n" ++ toString id, label) := by
  have hread : nodeOf? (nodeTokens id ++ .quoted label :: tail) =
      if keywords.contains ("n" ++ toString id) then none
      else some ("n" ++ toString id, label) := rfl
  rw [hread, contains_keywords_identifier]
  rfl

end Drawing

namespace Picture

open Drawing

variable {line rest : List Char}

theorem ofStatements_node (id : Int) (label : String) (tail : List Token)
    (statements : List (List Token)) :
    ofStatements ((nodeTokens id ++ .quoted label :: tail) :: statements) =
      { ofStatements statements with
        nodes := ("n" ++ toString id, label) :: (ofStatements statements).nodes } := by
  rw [ofStatements, List.findSome?_cons_of_isNone,
    List.filterMap_cons_some (nodeOf?_node id label tail)]
  · rfl
  · rfl

theorem ofChars?_node (n : Node) (hclose : Closes n.label.toList) (rest : List Char) :
    ofChars? ((Graph.nodeLine (toString n.id) n.label n.kind).toList ++ rest) =
      (ofChars? rest).map fun p ↦
        { p with nodes := ("n" ++ toString n.id, n.label) :: p.nodes } := by
  obtain ⟨tail, hwrites⟩ := writes_nodeLine n.id n.kind hclose
  rw [List.append_assoc] at hwrites
  refine ofChars?_append hwrites (fun statements ↦ ?_) rest
  exact ofStatements_node n.id n.label tail statements

/-! ## Many lines -/

/-- Lines, each after a new line. -/
def lineChars (lines : List String) : List Char := lines.flatMap fun line ↦ '\n' :: line.toList

theorem ofChars?_lineChars_cons (line : String) (lines : List String) (rest : List Char) :
    ofChars? (lineChars (line :: lines) ++ rest) =
      ofChars? (line.toList ++ (lineChars lines ++ rest)) := by
  rw [lineChars, List.flatMap_cons, List.append_assoc, List.cons_append, ofChars?_newline,
    ← lineChars]

private theorem ofChars?_idles {lines : List String} (h : ∀ line ∈ lines, Idle line.toList)
    (rest : List Char) : ofChars? (lineChars lines ++ rest) = ofChars? rest := by
  induction lines with
  | nil => rfl
  | cons line lines ih =>
    obtain ⟨hline, hlines⟩ := List.forall_mem_cons.mp h
    rw [ofChars?_lineChars_cons, ofChars?_idle hline, ih hlines]

/-- The line of a node. -/
def lineOf (n : Node) : String := Graph.nodeLine (toString n.id) n.label n.kind

/-- The names and labels of nodes. -/
def shown (nodes : List Node) : List (String × String) :=
  nodes.map fun n ↦ ("n" ++ toString n.id, n.label)

theorem ofChars?_nodes {nodes : List Node} (h : ∀ n ∈ nodes, Closes n.label.toList)
    (hrest : ofChars? rest = some ⟨none, []⟩) :
    ofChars? (lineChars (nodes.map lineOf) ++ rest) = some ⟨none, shown nodes⟩ := by
  induction nodes with
  | nil => exact hrest
  | cons n nodes ih =>
    obtain ⟨hn, hnodes⟩ := List.forall_mem_cons.mp h
    rw [List.map_cons, ofChars?_lineChars_cons, lineOf, ofChars?_node n hn, ih hnodes]
    rfl

/-- A label with a backslash at its end is not read as it is. -/
theorem closes_of_ofChars? {nodes : List Node} {p : Picture}
    (h : ofChars? (lineChars (nodes.map lineOf) ++ rest) = some p)
    (hshown : shown nodes <+: p.nodes) : ∀ n ∈ nodes, Closes n.label.toList := by
  induction nodes generalizing p with
  | nil => simp
  | cons n nodes ih =>
    rw [List.map_cons, ofChars?_lineChars_cons, lineOf] at h
    by_cases hn : Closes n.label.toList
    · rw [ofChars?_node n hn] at h
      obtain ⟨q, hq, rfl⟩ := Option.map_eq_some_iff.mp h
      exact List.forall_mem_cons.mpr ⟨hn, ih hq (List.cons_prefix_cons.mp hshown).2⟩
    · exfalso
      rw [ofChars?, toList_nodeLine, List.append_assoc, List.cons_append] at h
      obtain ⟨statements, hstatements, rfl⟩ := Option.map_eq_some_iff.mp h
      obtain ⟨value, tail, more, rfl, hvalue⟩ :=
        exists_statement (run_nodeLabel n.id n.label) (isEnd_nodeTokens n.id) hstatements
      rw [ofStatements_node] at hshown
      have hlabel : n.label = String.ofList value :=
        congrArg Prod.snd (List.cons_prefix_cons.mp hshown).1
      rcases hvalue with ⟨hclose, -⟩ | ⟨-, hother⟩
      · exact hn hclose
      · have hread : n.label.toList = value := by rw [hlabel, String.toList_ofList]
        exact hother (hread ▸ List.prefix_rfl)

/-! ## Titles -/

/-- What stands before a title. -/
def titleStart : List Char := "  label=\"".toList

theorem run_titleStart (hcs : '"' ∉ line) : run (.outside []) (titleStart ++ line) =
    ([.word "label", .mark '='], .inside line) := by
  have hstart : run (.outside []) titleStart = ([.word "label", .mark '='], .inside []) := by decide
  rw [run_of_eq hstart, run_inside hcs]
  rfl

theorem toList_titleLine (title : String) :
    s!"  label=\"{title}\";".toList = titleStart ++ (title.toList ++ '"' :: [';']) := by
  simp only [String.toList_append, List.append_assoc]
  rfl

theorem ofChars?_title {title : String} (hquote : '"' ∉ title.toList)
    (hclose : Closes title.toList) (rest : List Char) :
    ofChars? (s!"  label=\"{title}\";".toList ++ rest) =
      (ofChars? rest).map fun p ↦ { p with title := some title } := by
  have hwrites : Writes s!"  label=\"{title}\";".toList
      [.word "label", .mark '=', .quoted title] := by
    have hrun := run_quote hclose (run_titleStart hquote)
    rw [String.ofList_toList] at hrun
    refine ⟨.mark ';', rfl, by simp [isEnd], ?_⟩
    rw [toList_titleLine, ← List.append_assoc, List.append_cons, run_of_eq hrun]
    rfl
  exact ofChars?_append hwrites (fun _ ↦ rfl) rest

/-- A title with a quote, or with a backslash at its end, is not read as it is. -/
theorem title_ne_of_ofChars? {title : String} {p : Picture}
    (hbad : '"' ∈ title.toList ∨ ¬ Closes title.toList)
    (h : ofChars? (s!"  label=\"{title}\";".toList ++ rest) = some p) : p.title ≠ some title := by
  intro htitle
  -- Up to its first quote the title is read as it is.
  obtain ⟨start, rest', hstart, hsplit, hpart, hwrong⟩ : ∃ start rest', '"' ∉ start ∧
      title.toList ++ '"' :: (';' :: rest) = start ++ '"' :: rest' ∧
      start <+: title.toList ∧ (start = title.toList → ¬ Closes start) := by
    by_cases hquote : '"' ∈ title.toList
    · obtain ⟨start, stop, hsplit, hstart⟩ := List.eq_append_cons_of_mem hquote
      refine ⟨start, stop ++ '"' :: (';' :: rest), hstart, ?_, ⟨_, hsplit.symm⟩, fun heq ↦ ?_⟩
      · rw [hsplit, List.append_assoc, List.cons_append]
      · rw [← heq] at hsplit
        simp at hsplit
    · exact ⟨_, _, hquote, rfl, List.prefix_rfl, fun _ ↦ hbad.resolve_left hquote⟩
  rw [toList_titleLine, List.append_assoc, List.append_assoc, List.cons_append, List.cons_append,
    List.nil_append, hsplit, ← List.append_assoc] at h
  obtain ⟨statements, hstatements, rfl⟩ := Option.map_eq_some_iff.mp h
  obtain ⟨value, tail, more, rfl, hvalue⟩ :=
    exists_statement (run_titleStart hstart) (by simp [isEnd]) hstatements
  have hread : value = title.toList := by
    have hsome : some (String.ofList value) = some title := htitle
    rw [← Option.some.inj hsome, String.toList_ofList]
  rw [hread] at hvalue
  rcases hvalue with ⟨hclose, heq⟩ | ⟨-, hnot⟩
  · exact hwrong heq.symm hclose
  · exact hnot hpart

end Picture

namespace Graph

open Drawing Picture

/-! ## Whole drawings -/

private theorem intercalate_newline (line : List Char) (lines : List (List Char)) :
    ['\n'].intercalate (line :: lines) = line ++ lines.flatMap ('\n' :: ·) := by
  induction lines generalizing line with
  | nil => simp
  | cons next lines ih =>
    rw [List.intercalate_cons_cons, ih, List.flatMap_cons, List.append_assoc]
    rfl

/-- The line of a title, unless that is empty. -/
def titleLines (title : String) : List String :=
  if title.isEmpty then [] else [s!"  label=\"{title}\";"]

/-- The lines of the edges, and the last line. -/
def edgesAndEnd (g : Graph) : List String :=
  (g.nodes.flatMap fun n ↦ edgeLines (toString n.id) n.kind (n.operands.map toString)) ++
    (g.registers.flatMap fun r ↦
      linkLines ((g.write? (.str r.name)).map toString) ((g.reads (.str r.name)).map toString)) ++
    ["\x7d"]

/-- The line of the defaults of nodes. -/
def defaultsLine : String := "  node [shape=box, fontname=\"Helvetica\", fontsize=10];"

/-- The lines of a drawing after its title. -/
def bodyLines (g : Graph) : List String := defaultsLine :: (g.nodes.map lineOf ++ g.edgesAndEnd)

private theorem toList_drawing (g : Graph) (title : String) : (g.drawing title).toList =
    "digraph Dataflow \x7b".toList ++
      (lineChars ["  rankdir=LR;"] ++ (lineChars (titleLines title) ++ lineChars g.bodyLines)) := by
  have hlines : g.drawing title = "\n".intercalate ("digraph Dataflow \x7b" ::
      (["  rankdir=LR;"] ++ (titleLines title ++ g.bodyLines))) := by
    rw [drawing, drawingOf, bodyLines, edgesAndEnd, titleLines]
    simp only [List.append_assoc, List.cons_append, List.nil_append]
    rfl
  rw [hlines, String.toList_intercalate, List.map_cons]
  refine (intercalate_newline _ _).trans ?_
  rw [List.flatMap_map, List.flatMap_append, List.flatMap_append]
  rfl

private theorem idle_of_mem_edgesAndEnd {g : Graph} : ∀ line ∈ g.edgesAndEnd, Idle line.toList := by
  intro line hline
  rcases List.mem_append.mp hline with hline | hline
  · rcases List.mem_append.mp hline with hline | hline
    · obtain ⟨n, -, hline⟩ := List.mem_flatMap.mp hline
      exact idle_of_mem_edgeLines hline
    · obtain ⟨r, -, hline⟩ := List.mem_flatMap.mp hline
      exact idle_of_mem_linkLines hline
  · rw [List.mem_singleton.mp hline]
    exact idle_of_isIdle (by decide)

theorem read?_drawing (g : Graph) (title : String) : read? (g.drawing title) =
    ofChars? (lineChars (titleLines title) ++ lineChars g.bodyLines) := by
  have hopening : Idle "digraph Dataflow \x7b".toList := idle_of_isIdle (by decide)
  have hranks : Idle "  rankdir=LR;".toList := idle_of_isIdle (by decide)
  rw [read?, toList_drawing, ofChars?_idle hopening, ofChars?_lineChars_cons, ofChars?_idle hranks]
  rfl

theorem ofChars?_bodyLines (g : Graph) : ofChars? (lineChars g.bodyLines) =
    ofChars? (lineChars (g.nodes.map lineOf) ++ lineChars g.edgesAndEnd) := by
  have hdefaults : Idle defaultsLine.toList := idle_of_isIdle (by decide +kernel)
  rw [bodyLines, ← List.append_nil (lineChars _), ofChars?_lineChars_cons, ofChars?_idle hdefaults,
    List.append_nil, lineChars, List.flatMap_append]
  rfl

theorem ofChars?_edgesAndEnd (g : Graph) :
    ofChars? (lineChars g.edgesAndEnd) = some ⟨none, []⟩ := by
  rw [← List.append_nil (lineChars _), ofChars?_idles idle_of_mem_edgesAndEnd]
  rfl

/-- What a drawing of a graph is meant to show. -/
def picture (g : Graph) (title : String) : Picture :=
  ⟨if title.isEmpty then none else some title, shown g.nodes⟩

/-- **Drawings are read as they are meant** exactly if no label ends with a backslash, and neither
does the title, which also has no quotes. -/
theorem read?_drawing_iff (g : Graph) (title : String) :
    read? (g.drawing title) = some (g.picture title) ↔
      ('"' ∉ title.toList ∧ Closes title.toList) ∧ ∀ n ∈ g.nodes, Closes n.label.toList := by
  rw [read?_drawing, picture]
  by_cases htitle : title.isEmpty = true
  · rw [titleLines, if_pos htitle, if_pos htitle, String.isEmpty_iff.mp htitle]
    refine (Eq.congr_left (ofChars?_bodyLines g)).trans ?_
    constructor
    · intro h
      exact ⟨by simp [Closes], closes_of_ofChars? h List.prefix_rfl⟩
    · rintro ⟨-, h⟩
      exact ofChars?_nodes h (ofChars?_edgesAndEnd g)
  · rw [titleLines, if_neg htitle, if_neg htitle, ofChars?_lineChars_cons]
    constructor
    · intro h
      have hquote : '"' ∉ title.toList := fun hbad ↦
        title_ne_of_ofChars? (Or.inl hbad) h rfl
      have hclose : Closes title.toList := by
        by_contra hbad
        exact title_ne_of_ofChars? (Or.inr hbad) h rfl
      rw [ofChars?_title hquote hclose] at h
      obtain ⟨p, hp, heq⟩ := Option.map_eq_some_iff.mp h
      have hshown : p.nodes = shown g.nodes := congrArg Picture.nodes heq
      exact ⟨⟨hquote, hclose⟩, closes_of_ofChars? ((ofChars?_bodyLines g).symm.trans hp)
        (hshown ▸ List.prefix_rfl)⟩
    · rintro ⟨⟨hquote, hclose⟩, h⟩
      have hbody := (ofChars?_bodyLines g).trans (ofChars?_nodes h (ofChars?_edgesAndEnd g))
      rw [ofChars?_title hquote hclose]
      exact congrArg (Option.map _) hbody

/-- A register whose name ends with a backslash. -/
def backslashed : Graph :=
  .ofParts [⟨.regRead (.str "r\\") none, 0⟩]
    [⟨"r\\", 0, some 4, false⟩]

/-- A quote in a title, or a backslash at the end of a label, makes a drawing unreadable. -/
theorem drawing_unreadable : empty.Built ∧ read? (empty.drawing "a\"b") = none ∧
    backslashed.Built ∧ read? (backslashed.drawing "") = none :=
  ⟨.empty, (read?_drawing _ _).trans (by decide +kernel), built_of_nodup (by decide) (by decide),
    (read?_drawing _ _).trans ((ofChars?_bodyLines _).trans (by decide +kernel))⟩

end Graph

end Datapath
