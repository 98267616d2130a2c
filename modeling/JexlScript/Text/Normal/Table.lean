import JexlScript.Text.Hex
import JexlScript.Text.Packed

/-!
# What the normal form is made from

Three tables over code points, written in hexadecimal with blanks between the
numbers of a row and semicolons between rows: what characters stand for, how
letters join with their marks, and the classes by which marks are ordered. Korean
syllables are in none of them, being built by a rule.
-/

namespace JexlScript.Text

def rowNumbers (row : String) : List Nat :=
  (row.splitOn " ").map fun word => digitsIn 16 word.toList

/-- The rows of characters that follow one another, from the given one on: each
starts with the first character of a run and the length of the run. A row that is
written with a hyphen is a run of more than one, and a plus sign goes before the
number of characters that are passed over. -/
def rowsFrom (start : Nat) : List String → List (List Nat)
  | [] => []
  | row :: rows =>
    match row.toList with
    | '+' :: digits => rowsFrom (start + digitsIn 16 digits) rows
    | _ =>
      match row.splitOn "-" with
      | [first, last] =>
        let target := digitsIn 16 first.toList
        let length := digitsIn 16 last.toList + 1 - target
        [start, length, target] :: rowsFrom (start + length) rows
      | _ =>
        (start :: 1 :: rowNumbers row) :: rowsFrom (start + 1) rows

def packedTables : List String := [
  "]|dHKg*k!N1o,/@[Kd(gzLRXh%G<efN=tFF!?L$44[7z-r|c-75mCOCzkphv0^HA<^K/1jgZos#xg~n%$Eik?2g23'7Qbs,rG'fJjD5m &-Ff>qOi&lQ`o'hXg:4azd'4Otrqzin8eik$pV2(utT'AW*,~cdwNESr6;|rs!U,A+/,y%IKdx:Gutr%eCF@|*!6Z*^2fRIU$<-%DEB_hl_QEJg%<PC_P81UiaB/SM*EKK2=DC$w^8dPE~aaQs=fDQO!v>sL8C>OH2b-Ha4xVi]L``pu15w/oHA`8-U*>tVy1<F&_T,Ul1un]9g8pRdBAFFHrJmmjq*0b~~*Z&<d_u[Og'G.4l9QXgNtw&k:;+!^@sF)x6?)n~R:72`ykDU1<B3|K<Jh'tLw/tgt</=s.~6e^ycG&JCN*6Qc4rHKwQ[5tTm9?qCs.C0)x^M8r.7I0$l=@^`QJS^':*_Df]iUKi!ULSFy[7;hOy[)gE0]X1_9!9jHl3Cpl%Hv(J5+[+;LQ/X8|ME@)]$Tg1UTp??`pEEQSXVj6P,j w'#-N/H+3P6BD!yAc?8T/i78Q$P|H7$]sSMXcJ,lO2SK-,M*;Zqf'u]]xES7lK!:-0y!`%.`J.W1rIUkqP%zGi?Z4RJ~WR2etlJhhAlS~1Mf7Jyxn|KuR% ei5D9^oOI39.e@5IWC|'?RT$:U8MI$P87>M5gmOv=5_O5U~4t$3`J?=7r=5JOYC/]yfxK3`U(d%'zrm(pQi>je.UWg'O 9YVx.Sa5K;]LJcT|Qfa.L^uCt2!Trjz-jKYtz;g?iv7yF;YmSX^k5N(eMh(sKo7-N# M[Z(LyBFI)7.So>=o(F%W5!jm|Q`.1x/y#D-]L.ixkWd2o*$Lpu:`H.C J]r15~|M-0ngkd=^ZtF3:6dLlgy74/BD&.QJvq!>sJ*e<d_J2%$cR'M2'`bMO2Z2;c5uw;n^gz2#(HP*bN;E<!%7+Gato|Tc7tE<(gCV|8n]gDVub8a/>mT.OW'CG'aDVV`9.La=RS-<S_~Q%gip'#P_8H*OFZW]PHK79j?f&=OMC4Y?=TYik gQ&i2`aL3j7x`l&2fDVrnm[>|D(si7F!U!-u>LRm?h6I*2JJgE![dGV`SG'8nX|L?h5tQoChl#(r)0<H; *.MXZ%LMYA.[YkC:G]+=q#'jYEVWQI~ZLM.:=c_AH8P8:L,3S=Y.0Gl|6FbuwiXMWy2aPA-]7%UR['?D7;(|7H&)??!%2EpgGjE~6qxulE^fMggjePIIMM2/;1<u@q#v-q)T2=WY>](l,oPWUDdulHhv80$GJ@s*8!er3h76|1/3[Ks/WL_eYZO6.dDgcU27U'7VT5:jV`)qq.h+pZNxg#P!vqHad;QI1`,u7g./X;(o~EBKIKfJ2-h,I~X2ruo9hcUFi!|qvX]57B=5nxN^ote=.S^.@ (cJn tI>.E4^0`pA'lMU0<f3!enTb:/#>_l~q%4[UNOL~5&;Z?.Iq@+- N*62+m2N0WV ?RnArf)L&#GS-nwNzjz$n_fx2(!)$yznn*I0T|;Ssw:!=|P@knqZ?1[;+7a6'yoY-#rF^Bx*j+I$s5p>#1UNtu3BZ#J;ob~l tD |frz$RXlN</|%*4C$0;joVvt8w$E*(19),jIAsDf[|^CviIMg7xuWe%&_MnOSb1;G|!+@%br)I4YKdIJQ/c+b_$Qt*s#ZelLjt'!pY[S$[>LIA0eYBc(9x&3x0H*Mc<-QS:I[+3Uf^D?,aS!TWVF/L,F',h[`rvvkENK=8J%>%HYx37,Mc-Y$E:**Zrya,,)c&Lz9ECn-=-.zFLYjwYSm*sHz MDO>4I(ZV`Y^H,2%71./D4kpg@<B^vWOd;[j]Vr 6jE<wueww<oE5B#P<%P>bkVce@+&u^PeGdlIcxit*w-x(4Mb'InHW2i,B1cJQ~&0h2U)uJ%TNi|=m<6,BcPlB*T94Ayl(=E!$YsoWN03]",
  "mHI *4oO&D)W3v75hr4%[@7MeMZ)!J4,mt0;k34^VL[;iK&3'Y5wF)4DXaS^Tc~wqN@*#Mm@1Jjx1?m0L&r<dqeNyC~k;z/Iyx &Ftktnz Eo=K=a~mVeArp^*vR1[V[2CP=,DN_fV._2,JO3I  ,~KBK8MF~wf5Q -2#bPsBusz$yVs;5'z5gC$L6;XS2L^>cq0PGh1XSj(V`674-X|xC,AiGJZmJ~?g&@?.<p;jSNu4q>(nqhJx(`n#._zL6S-)900]DaSDP%SOwPYl!g`KrOWcFioteM6-O_xKCLs]]Xx^#IfaP.*;>4ecF8m1=^=uLq(o84=KqLkseSyRmGxMM)q[ulyj#/ 9OgYwj0n-W7V+NxUoy<~ ;C8P4`y=C<udcWCeZU~_sYLup^pjnbMoPjC1?$teYhv[%R<j@Fs.%(t!gBLE$7$;<lj(;vnt;DgdZex_b.JdK|_@k5]9GcMXgqyCWtD4a'>*eQz(&M@xfPXAN7kA=8=~$6x7+%/95]2qQS!!oc/D!q>zy]|2@AK'^R2#d~Yb<p55.Gx~WXLJkDZV2@U!5x[f?Jie;'TG<OQ_Sdl$Ay*oh,AcH~m[;VZ%k%V2('Pj-fK;lLJ#F:?xGCDWyI|l[2)8`[rS@OZq=`A^`Hrj'G^Zv]Tu-?Ql%[#+9V>D&P)-ubxH339ZfrNcMAj1gqfT>$nGZrxql6nL[2Y U%UhpJD&[mH^zLO:Ed|(GIn&]21ds!$S$'x]~%upm_3tsD)4<+2AvutQ`XW<mGNl/=<^:KD,IukR6C6tkT++2J9EysWEMLucpg&,5sI5D0TOLVv[[1uA@BO2Sl[0JGJxpt+a|ktGtk_h]ade*VxE)c- v7>T^s[(-o2z,1T,-_AmM,g'5e(.i4on=Mrtw?UAe j>3/F(z&1y15/xG!ac|_K[/1mMK[i;*Oej ;-)Wv!BG*o/+hT5aB`'eS^F(~cwA`x7grdFasd9Oa!FAviT~&Yu|&U]0BT?2TgIAVUfIy/<MhRkoTxe@1$S`#f-uR7ZR^pjpMk;K[CaRYmBY!C@oS#VpOq'R571pmogf0xA|%uLL7NO.67kb|^Ne|=KImujH1dXCY'8'a*4Yvcih$,I>+f-M@=C/]nz&7%rlJNe cV8Teuhab7es3ccmew&Rbpf$p.2:ox#84lGS;@BH2h30&ka'1ZNwtyO?az6X7[=Bb9a11!y7mj0y)#g43[HrAsm6d[y0u 9IQwncTcd_G%Yr.yylUX2oNyyc3wDZiJ|&ckd9##(iNYa:g;0|7/M9Xa0Vh/g^g((0MC'4#_Mx 2RTz?h^9;m_:)LOm[eMVCYc>7mT!dn0lFIWiE.y!i/CJ3KYVkW5s,*W6.-sRRg]Ly&-$.bGmXbs&;snEfWhQ+gXqyPp)]hKT&yD(J]|6'(fL%aM+Z 0Flwg,*['@;F6Q-R!ysgye.9cRO1H82Y-|)!:bqbomb`1]zXh,2ecwr8mF!0M3apESuSkJIHi9w.L@xA#2W~0TC5CcpJ9Kc(Y^z+]It`W5Ix ]zQ$Jls$nVx<>+ID:~jEx.B8&DC[XS~wW5K/qw3k,Ry4bAe%CrB_.M]aYtz6uIci+Qohc|r/*i>v(ESNkeUs)f/>u.GDZ8cS7c-pL@#z_U|BI0#((t~mVS;w.#?)^:&P3K),:|=gYoC>&wz3,;!; Q=tx)nsT*|aNgzFDpDv2IRZf2rNQT|cS#oy6[my~ens*s!C34=$NwBh.%PN.WV$.^3p.O*^@FPb`'HE?o8Sw4!loBU9mX;tFX)+J!/?q)+7P6VArn^tnxSwOjd]a6Vqd^_mr?Mi:; vJNu[B[DK+`|!E;A9LP:lv*TU$Qbf)E4o`2+L2xarg%ZBF'0;Qqi.mD6FGF7QFbNKej<]OW%9,V^=xL/<Wr1b)m3/&rcA1lkb/M=!&d0L3~F?H*V_kK#]%3Ztfm')h`iP?x0rpVqB([w,%@I.=W))='",
  "s@zu7U 7p2>$xz5>B5 mW'=~#*ni|qi+u`v7r8_|M^yS?Mfj#c7$KvQ.t).xDo>>i!,n0bwe/S)!`NDOizb[aZr:B_ZdAMY[lp]x[HavA.PUO)paBsKG[>eUYbwa1]'>s wQwB_H!P/Ch^N#wXI2uEs49H>FhZue8TD=Gt,^MwI]RO).J$@z6fJbmXE7ci~LwQ>Ku`&_u.=Vnj;!h!xP:*)2bW(=S]d|y`#G/Q)|,v^@Y0C6+(y%*IU#$3U.R%uIWPkqTI|BxWbsym('6X+&'Bkj^].B5T3N2t5];w&&S^&xA^7AARv9[_.3'[+L<Gb99,irEfm4F~YN.$ba'>WvvtH_M'X s#`mr]TcH0d*1^H6m]d[kN-AfXUM>LjRTqY=8,*,7`Bt^wU+Yb)u5]`gXai_8_^e(Bz/~N`yLAjU8]c*(LuG^v .@3vD2%I;U>Ni3W.)@L!ilHoeI#'`:2~R#vt7%+fxE1EV@JJ$>$#AbBt:~zcxf-Z'wNb+JqWcdm)Cj:%/#WnyO!3?wMHxl'nn0C2iR9e:jGl$)bvS3jVrp4Gj<gH*XFHT67$Gte+W5:%2,z7p-$.Zw_CnV#p-t|BQ..X_$_U`@hDG|'X=ao9@_GaiDJrhu*rPCFU)KA,l=I(!SPYg*c%]ZNFH -Lf:a&3rQuB>],+Tjvl2S` P].5XD1b8sT5lZy<gJ:k#u<q;=sg!=)Uz*![=fd4Rvc)(+#Negp9AR(2#1yaze(_elz-T$PQ3>f&6ycXl)'Re&,9 w^LcL5Rd3-;k7EE+SH^sPPWFlm)~>hJaj/71cVT-!s?X4V+2r@jltto8D%cw7!cJXg^%F)(Ga`xs@TPgU+~m?^s=!ciSjg.y,kBeNz0X[~w)sM[FOe|3^0k~nV,Y2)(>C8Af`/8>jU+WJ7)JgD#F&<)=<#six&Tb$G@1jMaZaqVw^L-fg_<TG1ZGJv=~Nv:M4z` 0&=5j~srPa'))p6xc>XtQ+aSK`3/sgcE(7.m@`p9BcN4eXFVOs:'?x'OJjt?e@xH_GYtT'bm0$1) ;%3P-9|kP+*DV./E3zCxW`%]y[;[FWeMy-(:4V<j*K4eATkO$hBUs&9NMkjf`=?n!=dV7?!tMKl&be,C/vV[d/L/Ane<8[YFQgtw-B;LED~n]h7o| 4Xz%c[HBV;gP[xGX,<cP>&geYgMQy*&+e8,-r(8s8|Bmk;[ratM=@=p&+0T$l|Q6|7%#&AgyG$_9U=<`>0W&W<74fHar,e!z%3QV8^M8j ;>B'dD]PutW+0/YS4I'T*lzF9#f/cn;Q7glXM`*e6_[(ZGc119gHsPbW%^m!_s+BF_,](aq($TfBO`aIW26_PXD,4mitgQtqr$CDZ&q%0QS[B-7;ZLX$|;duC%4,k39~Ptq#|k+M~)#,9RmsCQw+|^p~4?HBG*wwn#(+hbkB_JGgZ5fE)G`y.-L!U'&g M]5klA9<$gL;jll6efl?cl)9pSo28yr(X>n0g'+ZX94;*AhbtLw70ui#en_Rb2Q>&|qT-`U,!?i8icgyyVZD&&/[/NaSJ5wnuUO^zcyc+N%W?UZLmJ:Ai$*@FgJa>)vc:``xx)xE!sG,<_Nk0`;7&MU5Tdn2x kCw#K6@b9[W#0,$._EhUg.fl]4%P=G<v[,'Gxp`StGCJwyw(U3g=~X@co[C6O*c7uI/OXIqa0])SZe^|GD66#JXb]pYz^ h/nRMBoS$bQAvy%C?jV>O!J]%K5)~2l-Eo[b<FH??n4i]i7/Q9S+vr>w!v%@'N^0M;sE`YZiGry[,2!yYn`/3p5U5~NaG)K.9LV,+)AbRKZRu4rsn:y61SP3AOl%Ac'r1D;w`~[u-L~T?/(yw&>zcw(bFIQN.5|5u)$+KQG;vr)%5XseuRNWz:ubJIo]eFDlt7i2FXCBt)qg$qhzmd@f8_y'lvQ]mJAIZV1<B%!5ESsN]BLhsBq;ZS9*(LMqeUHeveaJu",
  "ptUwLafZ)sH;|(%kfh.FtrP%-|l=NSBF6aI6%z92DW(m??46=fNPjG@+NsQ0/$~]uN/8ElakgMwdsVcKd&#cF-3Py173rB'<Gt=]kiIfPMc6]!z=)xXk#?N]|JUmeQcu6[d9%7ueLq.Gn30[)zm8C*BA<pDi+N|swoQ8[j$_c|ptpw-[-mFUU5bJ #bKoMr>c00Fs@W#J7&*hw@jG Y`hwaku@yOhyYZs,v,zfT8FgP0ZNIy(K2Lq48,;/dAN$~rYg.=k`?#`a%x1WjaXok5u_NqAS:w4NS#`0~6EY&HDWf:A9j)>Loqa'8xkud<]>+ExWj`.u_.jHK/ePX71*>v&tn7]cGNeHha62!j5oz),(Y2i-^LTVv9y_' S`(UN.Xa6r49<LuF$0?OQU[N@CRcIMze3_:HC*bBlyiJ5d/^x6(u1cE-g<Nlfzg$4LabMI;.,lD>a/d)x?8WAlQ=fTqbYgGK6-G;=zR/uzjkPT:9ESDqlpU$N/@(m6)^V=p4&;eaZbFNP_Ow(=Aov4^%@J-*t~x9<M3SqLoL1Rzt/WGw-iP$VrHBorZF=X;)tnV&SXJqX&|2=E= ;#()wDn|<+dZ9=JkpyG% 9`^WQ5uQTi$Oz'AOyzBH?9o'RkD1hff2wY9B+I1=pg,O>)f./K~q*oGIK#om)f|EfJ%x(,|Mi>RQIiejkNi1ojny+6)sf5g9X2tjSqPhLAB]aOr:IM< sNM(7_Mg1?oFA7Dh2LDL.0_2@|mGB;d?:/&q)&-A'Wz1>U_cJhEXV^eOZC#@n:zGnjQdVF>P'2t466;&nDjj=jOgejQM*@6f5b#)6ur?I,nF^4#Xj[LHGD<QRXj124|U%6>=C?BwX>t/?mTXm'&gN=nZ*A~tRZfD2-34;?,-r|FApUPPLCgW&Gr~m=cppP+W8my!N63sXL<AW__:CTh8+ojAQu%pVG*|kN9Hs!?`Iw?a2wg~cpSd;S@Oe@xk*NYGzsm><-jwYjChOQ~,txO/=,ZYYrj?1hLOJ6^v51m/^upA2#]#LR>B:)q#y$6u9XJl7N>t~ ZENkMD,8~>bDiROW&8f9U.Y9Y06[^~c!pMgYj@_^,>(s+r;c,S,OVg Jr+yRnmnjl_Y<v-5UF;rs|eyRk]!#rQS)lMag-c pt9.YobM~$%~(R&VUBpN9H^3VLv9;T/y/ RtUV+.I5''7,d:RzgSNp3#'?|YH>:#SNK3^;<cXo|hcsI~V)(d7QSmu.JMNo.WQqGy~r]7vPG$QTT$V=,]Wg5qH]#e4'</X@4qYf/l&.Lc>SLcI5C`_6IZ_jo/m`>Hord%fF/9[5MZYq2tEF:|x#UG6-]&=yE*;8!'VTaajJpx2N(EoQW?7b[)!UoW@rX^z/T6NE:5!J|_,tra$zeA#aEFzc^z@H$[-yVt5eyaIXVY2T_D,aYc3PGl53<d4>[#v'W^?&N`QBF.rkr1*WvP5~>9N]9eoL.mB$JX?Fk]e+kRzf?p$4IaB]C;XsruK.:?H0oP7tmd`-4 haH5^_.V]DH1e>Kp2t JnLC7`Przt,2:B$R@(w :q(_<tWw'8mkScX8B@7uOdUYx6W;=2M]>L0NR?922XU-Ga$y[l6g_hW1~LB`wW#3%60^BumKpraO.*=uOXSorHK@$|pY'V'NHH;I^2x]p^e>l&Z@]_r#AVc4!&*/j!1v(=DE/%NRid#=^/5mh?(.VJB@c2~W^1%.cfMAK.S_NI$wm=q([S[$FX`/u4(6vX WAf7ztm*8fFjcme%.|9BTiH4=Dy@PE!)STO<R$>'vRnNo+,SWv[cj4e=>-7n:QI$je[>D0F();ko*]7>(:J$Y(-g^[*&.uZNTF~a3+`]gl]yne&8X?HLi~f%c a0i#8V7545N&fGQPIT?$=gy_Q>`I?r|)IM|N01JXaR:) Ekqq56*6iU+grc?XS'dUu?4B-++5!ePf~|nCMiTk8T$DA2V.0: bi`PO!",
  "</Xfch[kKyodDzAg)jY~hRm!kqXv3-LXO>Ho@at'V^#c^ZcY/qI,US!L~%!;1qT*d&qsOew?7Yl@714lkeF5hK0ifa9VCJBzO(q 0o8?;x_#>,lAx!b6=wMb1Z9sWE<)#z_i*?Q-tCzzZ+H~_QhN-udfLEECl6Aj1Imqw=$T^j4.s70EexX43ZUW<30O61_=a(V>Ol1E5j=LXzho=4@0Vk`c 2$s]5MQ/bzv-Unq!FcS.)~f_k!tMHS>`QNV?(* hk2bF[ 18`sgm|9;d.!ENYbMbG7pRUVl-FuLy>:n`-5du>) y&E/DPv$Ey]G3d#f?3L;UJt-,[FWg%`X1VFX;p*b%&o0$Rm_(OHKmk9/XW>&D6eob1H446Tsv:t,V<24R6+z@]?sJYX2kzK.!S>I%hwEY?&61d6gdHkix:n1&^(C?R7CwNVR)saod_uH:h@PAttz|wd4&NU`>Y-9.l `(_pTi[y<*~y^6#yQT_DlJ]V9'lUt$)~n8J(]nlvUC(QMW<$cQQ=*EaCWXQi67+ VZDDh]NY=|HeNoc]4-bKEsa]^l,|2(3u&U ;#'a0:P;eX*RCcq.2'1n/'P7hPbiL~3n5W.F%@CmF6%F|[KCLL_D3PG1WR:QZ('$$:A|Pb'EaGFQE7<|'T+AY^[XM1Zg^%9BUUrK-|HpT`qFQ1<)RYMj5qx3O>-YsRk2CB5B~r4Imm9^yi?VgXBeN96qdt3*<K-7BEzv@nfTyIU#-jO7lv'0*:Z.?sB!%=E[:tp:CR9=0[A2Q9!/,t875SH<XUeuq5S6XWgf%gIj;@;O:$XpWoxGmeN<+$:,yMYkLfe(S`Ik-ya5BXsd5^Mmu@ N91051t#O#2$Sj*y~=u~O8#m$6L7 ]~nhLYt:dnKH#6;L|#c>zn@)>b%o&L&;`hYM#dF6TJUY0Rnl91I?M]bqD$*$vYwAeOVo=ZDDn 14/*b()VxGn>'FCvb*OQ9%F8J&XUGq5L/f]Mm.~nD%ilPY-t`1%sVl_=IScZx2lg'R-zNP7PPY0t*2d)q'tuhv1R=Ezu^&If`ZC*S$)eQqtxk;#7q>(|]ejw)*uvg`#'M.SXAZ/M'hfHO!8Wf'LVi#w+0l-LNj5e%``kLWSn|ViDKIjxJr5-9x#su1NKN4rj1,#~HC)hV_`C'=-l(GRN?XNm04P;e4'J14dp4GXsy9[t<:=Wr-L81NPd_?[Yr3v`2?U?p?v;qRM$%n]57`:e-~vv0YI!(C e)i@cx9~]@o>;zlz;tBo*i^EU#o~JWH[]0l$b!AQHc:4*KlM.`OB>`<5+ouXp0Ujr,]M,aq[-YiPj+G?C]&a@OiaBc,EAZf,4.VmNQ1 6wH,mJE`xv%d8HqL09L0A,^_zw0Hz 4!7|'My^C~K'i53GSv[v-9a'>&:'=q[@CM$HEb_S$dm6C^DvA(%mH8eXqOq-vYsx:Z;?rgE2%J5bV+K/2ET]B!4|/GD;p!6:l5)*9=]U`=P(+@~ FlSLSEyj6Xm^,`6(>&|qJT5116)::|yc*LR3_1@>|RQ|An$.nK>8M<tzq@M2,Q37o#(j(oCXFbsSa4G m]k# C+L=5JUQJ$s)7C!KoHy/JMwTPTV&_u4&2Ht'TfH]o1hHwAD =Z93@Jv)#uFks_UFhn?aHIk=7hw<~.eY%OvW^=:eFy!*DNajda-%J:x#,>cBi8^BJ?%Ai^o0Tf=Hn Q=fcJ);k+lt 2e]O|B^9;GhK=5/crkR^7*x|)=/'*x[Wj%DUFrlJMqQ1WiuTa4D]JEea3hc0[]B%a1,0Do4bwOV+!,Dmh Qptw^xnp[Ll=k<q!!ku3d?/oNalWnqRM5+QKA? bY)lQB/bl7:lfkO5@ rU[= 6olQQz&&zz>7h0u4iEX5kAVz;?[[hb!tmOuuZC9J`~fXoI3&z50Q8.~|WN~Rz0+^ONtEgX&frHbU2cSO(dghM./0ztvU0O9&<Y*8Eh9'3)G(LkG>",
  "Ua6:a`DT7TyBs!XML$(tw7BjgW%='s'tqZx|TztP~2CYJy/B0fvL(!@9sUuUUC-#>d_cb %R&Opm.+384'8%<w~7+FsNb@,n/((|Nzh*ZQ]gS=f^$1c).<B?Zl4,6RY=mQMVsSD&R,]A)<^t#]]bm?sSCUZef'U1K?~$;nZSfL^k^ ib1vWnMqkC6X;/p_;(:CF1`RP~5Xtanum.?|Z| De9#,1dmd6S]:YJxevb|o.@UJHd9DS5sS(|lc _A8r+Sk#r7a-Y?~Z]/CLd(%AThzngtkng=FUV?#FOy=uEAGldL`+x-><b@xSU#0cdl 47wKxBk&EZ>,5n!_)VyL6g&_N&o`(SluQV9$xlQ$KcHC2M.XACqy+IMK<PT!geG^W|PhB|Ll;%&|tW4L?3z P7l7^7HZ`/V9bLGYB[]g.Sj*>|e<Q&/4]pmGv4fQc,1K7(G+ YVhg>FYr>|O[_IywlN-@B/XeJ@n,sp1U>m]+12G@jzz[UBwUC5)wC.w(M*,ChS+(^EwaE]niiQ7&8PQC- MyPR0Hz<a@2Bne5*G-)Mrql9[2T)wd>FjxjP@J-Lt%b==r5a-N<3CpR!<qioGUg9>cp@/-Z/4)L'/tOF<IEI<to_g 0xUdI/kq3.Lg^YTR0s4DzFtLG!Z"]

def normalTables : List (List String) :=
  ((unpack 46681 packedTables).splitOn "\n").map fun table => table.splitOn ";"

/-- What characters stand for. Where this is written with a hyphen, each of a run
stands for the character after the one before it. -/
def expansionRows : List String := normalTables.headD []

/-- The two characters that a character is joined from. -/
def junctionRows : List String := normalTables.getD 1 []

/-- The classes of marks: the first and the last mark of a run, and their
class. -/
def markClassRows : List String := normalTables.getD 2 []

end JexlScript.Text
