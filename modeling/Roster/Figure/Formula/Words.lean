/-!
# Words of Formulas

The names that may stand behind a backslash in a formula, and the characters that stand
for themselves. A name is a run of letters: it ends where the letters end, so a longer
run is another name and not this one with letters behind it. The blanks and the brackets
are the exception; they end where their own letters do.

Some names are in two lists. A mark over something is also a sign of its own, but where
both could be meant it is the mark; a blank is also a sign, but only where a sign has to
be.

## Main definitions

* `Formula.symbols`: The names of signs.
* `Formula.accents`: The names of marks over something.
* `Formula.functions`: The names of functions.
* `Formula.isSymbol`: Whether a character stands for itself.
-/

namespace Roster

namespace Formula

/-! ## Names -/

/-- The names of signs. -/
def symbols : List String :=
  ("AA AE BbbC BbbN BbbP BbbQ BbbR BbbZ Bumpeq Cap Colon Cup DH Delta Doteq Downarrow Equiv " ++
    "Finv Game Gamma H Im Join L Lambda Ldsh Leftarrow Leftrightarrow Lleftarrow " ++
    "Longleftarrow Longleftrightarrow Longrightarrow Lsh Nearrow Nwarrow O OE Omega P Phi Pi " ++
    "Psi QED Rdsh Re Rightarrow Rrightarrow Rsh S Searrow Sigma Subset Supset Swarrow Theta " ++
    "Thorn Uparrow Updownarrow Upsilon Vdash Vert Vvdash Xi aa ac acute acwopencirclearrow " ++
    "adots ae aleph alpha amalg angle approx approxeq approxident arceq ast asterisk asymp " ++
    "backcong backepsilon backprime backsim backsimeq backslash bagmember bar barleftarrow " ++
    "barvee barwedge because beta beth between bigcap bigcirc bigcup bigodot bigoplus " ++
    "bigotimes bigsqcup bigstar bigtriangledown bigtriangleup biguplus bigvee bigwedge " ++
    "blacksquare blacktriangle blacktriangledown blacktriangleleft blacktriangleright bot " ++
    "bowtie boxbar boxdot boxminus boxplus boxtimes breve bullet bumpeq c candra cap " ++
    "carriagereturn cdot cdotp cdots cent check checkmark chi circ circeq circlearrowleft " ++
    "circlearrowright circledR circledS circledast circledcirc circleddash circumflexaccent " ++
    "clubsuit clubsuitopen colon coloneq combiningacuteaccent combiningbreve " ++
    "combiningdiaeresis combiningdotabove combiningfourdotsabove combininggraveaccent " ++
    "combiningoverline combiningrightarrowabove combiningthreedotsabove combiningtilde " ++
    "complement cong coprod copyright cup cupdot cupleftarrow curlyeqprec curlyeqsucc " ++
    "curlyvee curlywedge curvearrowleft curvearrowright cwopencirclearrow d dag dagger daleth " ++
    "danger dashleftarrow dashrightarrow dashv ddag ddagger ddddot dddot ddot ddots degree " ++
    "delta dh diamond diamondsuit digamma disin div divideontimes dot doteq doteqdot dotminus " ++
    "dotplus dots dotsminusdots doublebarwedge downarrow downdownarrows downharpoonleft " ++
    "downharpoonright downzigzagarrow ell emdash emptyset endash enspace epsilon eqcirc " ++
    "eqcolon eqdef eqgtr eqless eqsim eqslantgtr eqslantless equal equalparallel equiv eta " ++
    "eth exists fallingdotseq flat forall frakC frakZ frown gamma geq geqq geqslant gg ggg " ++
    "gimel gnapprox gneqq gnsim grave greater gtrapprox gtrdot gtreqless gtreqqless gtrless " ++
    "gtrsim guillemotleft guillemotright guilsinglleft guilsinglright hat hbar heartsuit " ++
    "hermitmatrix hookleftarrow hookrightarrow hslash i iiiint iiint iint imageof imath in " ++
    "increment infty int intercal invnot iota isinE isindot isinobar isins isinvb jmath k " ++
    "kappa kernelcontraction l lambda lambdabar langle lasp lbrace lbrack lceil ldots leadsto " ++
    "leftarrow leftarrowtail leftbrace leftharpoonaccent leftharpoondown leftharpoonup " ++
    "leftleftarrows leftparen leftrightarrow leftrightarrows leftrightharpoons " ++
    "leftrightsquigarrow leftsquigarrow leftthreetimes leq leqq leqslant less lessapprox " ++
    "lessdot lesseqgtr lesseqqgtr lessgtr lesssim lfloor lgroup lhd ll llcorner lll lnapprox " ++
    "lneqq lnsim longleftarrow longleftrightarrow longmapsto longrightarrow looparrowleft " ++
    "looparrowright lq lrcorner ltimes macron maltese mapsdown mapsfrom mapsto mapsup measeq " ++
    "measuredangle measuredrightangle merge mho mid minus minuscolon models mp mu multimap " ++
    "nLeftarrow nLeftrightarrow nRightarrow nVDash nVdash nabla napprox natural ncong ne " ++
    "nearrow neg neq nequiv nexists ngeq ngtr ngtrless ngtrsim ni niobar nis nisd nleftarrow " ++
    "nleftrightarrow nleq nless nlessgtr nlesssim nmid not notin notsmallowns nparallel nprec " ++
    "npreccurlyeq nrightarrow nsim nsimeq nsqsubseteq nsqsupseteq nsubset nsubseteq nsucc " ++
    "nsucccurlyeq nsupset nsupseteq ntriangleleft ntrianglelefteq ntriangleright " ++
    "ntrianglerighteq nu nvDash nvdash nwarrow o obar ocirc odot oe oequal oiiint oiint oint " ++
    "omega ominus oplus origof oslash otimes overarc overleftarrow overleftrightarrow " ++
    "parallel partial perp perthousand phi pi pitchfork plus pm prec precapprox preccurlyeq " ++
    "preceq precnapprox precnsim precsim prime prod propto prurel psi quad questeq rangle " ++
    "rasp ratio rbrace rbrack rceil rfloor rgroup rhd rho rightModels rightangle rightarrow " ++
    "rightarrowbar rightarrowtail rightassert rightbrace rightharpoonaccent rightharpoondown " ++
    "rightharpoonup rightleftarrows rightleftharpoons rightparen rightrightarrows " ++
    "rightsquigarrow rightthreetimes rightzigzagarrow ring risingdotseq rq rtimes scrB scrE " ++
    "scrF scrH scrI scrL scrM scrR scre scrg scro scurel searrow setminus sharp sigma sim " ++
    "simeq simneqq sinewave slash smallin smallintclockwise smallowns smallsetminus smile " ++
    "solbar spadesuit spadesuitopen sphericalangle sqcap sqcup sqsubset sqsubseteq " ++
    "sqsubsetneq sqsupset sqsupseteq sqsupsetneq ss star stareq sterling subset subseteq " ++
    "subseteqq subsetneq subsetneqq succ succapprox succcurlyeq succeq succnapprox succnsim " ++
    "succsim sum supset supseteq supseteqq supsetneq supsetneqq swarrow t tau textasciiacute " ++
    "textasciicircum textasciigrave textasciitilde textexclamdown textquestiondown " ++
    "textquotedblleft textquotedblright therefore theta thickspace thorn tilde times to toea " ++
    "tona top tosa towa trademark triangle triangledown triangleeq triangleleft " ++
    "trianglelefteq triangleq triangleright trianglerighteq turnednot twoheaddownarrow " ++
    "twoheadleftarrow twoheadrightarrow twoheaduparrow ulcorner underbar unlhd unrhd uparrow " ++
    "updownarrow updownarrowbar updownarrows upharpoonleft upharpoonright uplus upsilon " ++
    "upuparrows upzigzagarrow urcorner vDash varepsilon varisinobar varisins varkappa " ++
    "varlrtriangle varniobar varnis varnothing varphi varpi varpropto varrho varsigma " ++
    "vartheta vartriangle vartriangleleft vartriangleright vdash vdots vec vee veebar veeeq " ++
    "vert wedge wedgeq widebar widehat widetilde wp wr xi yen zeta").splitOn " "

/-- The signs that have room on both sides: operations, relations and arrows. -/
def spacedSymbols : List String :=
  ("Bumpeq Cap Colon Cup Downarrow Equiv Join Leftarrow Leftrightarrow Lleftarrow " ++
    "Longleftarrow Longleftrightarrow Longrightarrow Lsh Nearrow Nwarrow Rightarrow " ++
    "Rrightarrow Rsh Searrow Subset Supset Swarrow Uparrow Updownarrow Vdash Vvdash amalg " ++
    "approx approxeq approxident arceq ast asymp backcong backsim backsimeq barvee barwedge " ++
    "because between bigcirc bigtriangledown bigtriangleup bowtie boxbar boxdot boxminus " ++
    "boxplus boxtimes bullet bumpeq cap cdot circ circeq circlearrowleft circlearrowright " ++
    "circledast circledcirc circleddash coloneq cong cup cupdot curlyeqprec curlyeqsucc " ++
    "curlyvee curlywedge curvearrowleft curvearrowright dagger dashleftarrow dashrightarrow " ++
    "dashv ddagger diamond div divideontimes doteq doteqdot dotminus dotplus dots " ++
    "dotsminusdots doublebarwedge downarrow downdownarrows downharpoonleft downharpoonright " ++
    "eqcirc eqcolon eqdef eqgtr eqless eqsim eqslantgtr eqslantless equiv fallingdotseq frown " ++
    "geq geqq geqslant gg ggg gnapprox gneqq gnsim gtrapprox gtrdot gtreqless gtreqqless " ++
    "gtrless gtrsim hookleftarrow hookrightarrow in intercal leadsto leftarrow leftarrowtail " ++
    "leftharpoondown leftharpoonup leftleftarrows leftrightarrow leftrightarrows " ++
    "leftrightharpoons leftrightsquigarrow leftsquigarrow leftthreetimes leq leqq leqslant " ++
    "lessapprox lessdot lesseqgtr lesseqqgtr lessgtr lesssim lhd ll lll lnapprox lneqq lnsim " ++
    "longleftarrow longleftrightarrow longmapsto longrightarrow looparrowleft looparrowright " ++
    "mapsdown mapsfrom mapsto mapsup measeq merge mid minuscolon models mp multimap " ++
    "nLeftarrow nLeftrightarrow nRightarrow nVDash nVdash napprox ncong nearrow neq nequiv " ++
    "ngeq ngtr ngtrless ngtrsim ni nleftarrow nleftrightarrow nleq nless nlessgtr nlesssim " ++
    "nmid notin nparallel nprec npreccurlyeq nrightarrow nsim nsimeq nsqsubseteq nsqsupseteq " ++
    "nsubset nsubseteq nsucc nsucccurlyeq nsupset nsupseteq ntriangleleft ntrianglelefteq " ++
    "ntriangleright ntrianglerighteq nvDash nvdash nwarrow obar odot oequal ominus oplus " ++
    "oslash otimes parallel perp pitchfork pm prec precapprox preccurlyeq preceq precnapprox " ++
    "precnsim precsim propto questeq rhd rightarrow rightarrowtail rightharpoondown " ++
    "rightharpoonup rightleftarrows rightleftharpoons rightrightarrows rightsquigarrow " ++
    "rightthreetimes risingdotseq searrow setminus sim simeq simneqq slash smile sqcap sqcup " ++
    "sqsubset sqsubseteq sqsubsetneq sqsupset sqsupseteq sqsupsetneq star stareq subset " ++
    "subseteq subseteqq subsetneq subsetneqq succ succapprox succcurlyeq succeq succnapprox " ++
    "succnsim succsim supset supseteq supseteqq supsetneq supsetneqq swarrow therefore times " ++
    "to triangle triangleeq triangleleft trianglelefteq triangleq triangleright " ++
    "trianglerighteq twoheadleftarrow twoheadrightarrow unlhd unrhd uparrow updownarrow " ++
    "upharpoonleft upharpoonright uplus upuparrows vDash vartriangleleft vartriangleright " ++
    "vdash vee veebar veeeq wedge wedgeq wr").splitOn " "

/-- The signs that have what hangs on them below and above. -/
def tallSymbols : List String :=
  ("bigcap bigcup bigodot bigoplus bigotimes bigsqcup biguplus bigvee bigwedge coprod prod " ++
    "sum").splitOn " "

/-- The names of functions. -/
def functions : List String :=
  ("arccos arcsin arctan arg cos cosh cot coth csc deg det dim exp gcd hom inf ker lg lim " ++
    "liminf limsup ln log max min Pr sec sin sinh sup tan tanh").splitOn " "

/-- The functions that have what hangs on them below and above. -/
def tallFunctions : List String :=
  "lim liminf limsup max min sup".splitOn " "

/-- The names of marks over the thing behind them. -/
def accents : List String :=
  ("acute bar breve ddddot dddot ddot dot grave hat mathring overleftarrow overrightarrow " ++
    "tilde vec widebar widehat widetilde").splitOn " "

/-- The fonts. Each is a name, and with `math` before it the name of a group. -/
def fonts : List String :=
  "bb bf bfit cal default frak it normal regular rm scr sf tt".splitOn " "

/-- The names of blanks. -/
def blanks : List String :=
  "enspace qquad quad thinspace".splitOn " "

/-- The names of brackets of any height. -/
def brackets : List String :=
  ("backslash Downarrow downarrow langle lbrace lbrack lceil leftbrace leftparen lfloor " ++
    "lgroup rangle rbrace rbrack rceil rfloor rgroup rightbrace rightparen Uparrow uparrow " ++
    "Updownarrow updownarrow Vert vert").splitOn " "

/-! ## Characters -/

/-- Whether a character stands for itself. -/
def isSymbol (c : Char) : Bool :=
  c.isAlphanum || " +-*/<>=:,.;!?&'@()[]|".toList.contains c ||
    (0x80 ≤ c.toNat && c.toNat ≤ 0x1FFFF)

/-- Whether a character that stands for itself has room on one side or both. -/
def isSpaced (c : Char) : Bool := "+-*<>=:,.;!\u2212".toList.contains c

/-- Whether a character stands for itself behind a backslash. The number sign does so like a
    name, so no letter may follow it. -/
def isEscaped (c : Char) (rest : List Char) : Bool :=
  "%$\x7b\x7d[]_|".toList.contains c || (c == '#' && !rest.head?.any Char.isAlpha)

/-- Whether a character behind a backslash is a mark over the thing behind it. -/
def isAccentMark (c : Char) : Bool := "\"\x60'~.^".toList.contains c

/-- Whether a character behind a backslash is a blank. -/
def isBlankMark (c : Char) : Bool := ",/>:; !".toList.contains c

/-- Whether a character is a bracket of any height. -/
def isBracket (c : Char) : Bool := "()[]|/<>.".toList.contains c

/-- Whether a character behind a backslash is a bracket of any height. -/
def isEscapedBracket (c : Char) : Bool := "\x7b\x7d|".toList.contains c

end Formula

end Roster
