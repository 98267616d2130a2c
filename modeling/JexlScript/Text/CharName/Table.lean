import JexlScript.Text.Hex
import JexlScript.Text.Packed

/-!
# The names of characters

The names that the Unicode standard gives to the letters of Europe, the Near East
and East Asia, to signs, symbols and pictographs, and the further names that it
allows for some of them. Names that follow from a rule are left out.
-/

namespace JexlScript.Text

def packedNames : List String := [
  "^,d;KI.;Svk)Y+WJbj]2!#~BhQOT[OFgn[Y rt9@9c^pPm:ncxQ2RTF/GZIz`0KAcjvVE_G&V2MsUh8kuiY@F98Zkd,4c[M@i#r?BEAV ;H-ji94v4Su=VwdYH#M)%[hMx|k9-?shW=JZ)ZPn>r&WbQHbXBbbj2zQl4OEaH]K 9MBTMR:$xEGcpuUwfQ7xq;@S!+-_5J.CjhS(hv%4b^eihgeb;eQk.uFNJ9vf)-|O[9;qgXkvs-~T&,ys$jQ|x3v0b192Yt=)h.#*sw|oUX(m%R>w_,%Q5PnzJ$/'_sL?#DV%+nwB,:LNkD py9dWS(6ew;%n!JW&j|_NsJ8%7'YDz;ShzpoPs^/AGJVb%[_RFknRW)>I'|n5bQNmTNaFl9w/-=K`$UF]am'ci!GDMqZ9MuiMoETY3UN?UgXi[uNfV:LwQOzF1Tu.2>tLjZYv'&oY.|v~[~-6Jybng_y|gBQA*/jO6``4,L%BY$ucE*O*bsW-T?ln6`*tM|(5d;59AZJ7jaB|;h!lUHBJg0*Z$ c2B<Z@l4,A^*a=FJh'3:)<Rv<M%(Fe=Vg+]BK g=89ivM)S#Cb*M#U*%o/0tIv]5--'q8m+[;ULy3(OY8)~)IrpH#zY10Wtn:18%7VLh|0E36$C*ph!O@Vtp&HfzS~_Iv;0i7aJus,P(2(u$0g 4IPx1bWfLJ TLoPoCLJ>2|a%*2ThHUpu6~w'KD%Hts8PBi_~.>WP?%hO,WPhaKr?Bn@*JOh%Onn3me6A1)8x-|j%y$$FYCf`7q?:^5f2FJDFT(HP$@4no:5'`xQx[Lk:e>+*rx?2NS#c/T$*M//qaBH)8)&62E'#1<qk-ZiHPULSPfj3*9PCfTyM%/[j9gW0O>][6~[=L2~.Et-|^4^5WcXs~-Mkb<n~2*Hz|oCl-KX`LRo ?;W[m50NF?]MMG(5*v`ywJ68ZJ37.@ZtIMux?fHO,'tk4pEyC~0]ylLk9&/ExMRe,mF9W2Fu;~'c(fxw]l6XMAOZMsRmy#+x+Vp~/kk5bXdLM*LG9a|3<AJfRRvhe<_`X?]@1-fsGwL`|;spY(OM*Hs>Hsa5V2yQAz*8:CGX@~>*N$bB`])8bc2Kkxj#QX>2lc]([%YK8?'A9ut7%Tij4j2Rmq/udduPL@.>0L;Ub5b#e$5XgYb/t?j&g2?=*e)Ej7[W[3EWu*pUWDx.!@nv!Y2_w2`o`X|OyhKpv_v.lJz5O(]S%GgRpi5Kt'y@GquQ8CMs#=xHL?#Z5oP+bRu3CXPkU.Tau-8nHXE$t9`]LxG3&T*Ol9H.6zO*!hB$Gctg,M+U<`Sl66<R(q+O(T<U)Fwwc<rGT9dP$+Vvl^C&+hl(lT2 0.;e&.@760EM.Iu5tTA]3@_nbWwI2e+7w(1O*P#tZ8oVX%H0WuR'4St)B_$rxQgYO[D?u97-0Q9CP_ePw-rF%Gt<k;VCNAyW0`ger8QevWILruW~.G~(!a]]1pEFLCQ;L:/+-PHJ9d>vJ3WKVm$n6dZZkZ3~7(IIs6D1lzgyu8JlRFwd: .W8NTGFx'ya@g|lDZpHj]pOp+X P+04z!Ck,)-`$hUuhq/rma4-*/?65~r.@YnmL<(&u1]$w[q&OR&`VxSH*ejjCE@o,Dgm[9&l.,#>cb'I&YQ`+c;H8[ods>5VPk&O5brZI(G:0iLpN.-'`MUF]|E(/=7N868ao!@btzb:[uc#$XTX/ejq+CjdE'Q'k#?;b]SCPDiiO.B^OY)p9VbhCW,^EpX$<8rlPQrGEEzvMD)B*sH|GaDn$9bw'-~;YNSKXWuS.EL!f2Fm&n2(4yMa DA5mJKAgRO((3mN|BXWm?fPG7pL'<d?t [0%'mug.-ym<3eK|L_1i~M$rLsEf&67A*&ps<?j,BNPZuM?d02yHoXu^:oJ#%~l[ne 9Sp+~u>@$Qj.=rHGdQc0:rl712WgH3Wk-tQ]L5O)i~GipEjE,+<_)BN",
  "qI.:L+/^u]6B6k%j7pza1 D8e(t;&Qt~(;vg)Q*7xt9cb*'2:ZDzIN)#02!9bux*&)f)8kyDRz_FB6rD^b|vs:'.4D6QdYM1 5D1enKO0ph97,cK&MrtK#xT6s):7E=5J-.b$ur]0a1$dL:u 6,Wwb2^C]3.(o,WotYph;/sBm|g$RUe:45<&ld|7H%VkE9EZ3<xVw.z;WFb1?JP3H #!B79MSss%J3`!9]x0'Yf;U5j1m@n&4+w6tq*z41YDVwJ+(&aaDCL5$R1=uPT~&w3[>eUSB^ZS!?EIgL^I :9!zQ&YgEOKMx]|R<DzCL)*Q]42_~$V#St7xK#JP0.lQj|xe4|[w)D>+!&rt?LRtiUFPp;>$A& VHg3i=voP1<w4>E6%Ze$030H:r^o/6sAoI%6rzM/1[6!0H/:@VZ=0*^m#eW|<N8lS)sg@MFmDP=cn#i+q>k|(^[8jo~jov.wazU3[x>ZN:Z_s_a+*WRZ)>I.#l$5&E'),2@E83hzaurH9jgaA^LhU^;Iri9m '_CK#PP5Uf,xUVDiiEGP`dqa'/LOpFg=Tr#P8p60jvzK@L'lo,`?+Eoi[~n:RH1XUp6f][:&NCVqNSOf5V%P_x/Fz+>Kn]z,8&s>CEW)3/+$i*fnd'8 .0bBITMW`ls[F_hK1T=N?g4>u?&z#.:!|e8kU);O_7|Q.1G.063!^sC_p=hha?,Th:uw7=$|J|UV^X#Hw6^NY,/Me;BcT?GS(F@-wC0y]4UNsna#K4aSq_Ck!4dZ[`Wa'gK82=**GGAuYCM-68bV07w$&7FbW|dBzB(?M!Ey]hG?Jp-'*cEHq(tj'Jl`Cpm/o<sTs6QU[I.9e0Ak>xaL7v9Z<lel]CiI:4rEM3v,g+Tv kDA1$$c;6~X,rz5q_::2xc|SzRbi]5NA+0oNC>O4N#20V9D~@3*KAit,iaOI-Gqzb5HP`#l;(c8?I:2LSw0ZUkNt?Aq1V_]Vac:_Rn:^VL&e?JUQU )g`BupA70=HaCFs~ns=YbUY@OK?y#YS5-v90-V%.@KuJ|;7_9O`>'86DB7#!s_([jI#ir8(jD].5YqJpCFuzp !+7[*#Ayg6z!hdO1n#jfQ~~IYVAUm;Finpvx^sHX`Kx*8BMF818yHz+BrWVENIcm[8s8e~-N;+m!O) jQ3E-zsIM$l]hM0C08?`m=d^-cO*&Hujrp0Za'wqHv>N;Yas!|hpnZ^VhtIj!54o4.U>_iA1fLS@BysCz?3=/%;~=8`+hKh8:|]x!DM6Ug0J[1a;L 8PnM+JVCo3wBI-#N][WFaqW(M]uUDTX^b]o8CdY=')mF$|5o`k:*aDQ#Pj'xwsWzlMWH[AWs|o#I99!0QB/nhq$&YZJ3:.J5Y/zPhY$E-WQl;SZ~U x(d(DFlQJ*2.j&A?O3v6'~Wxv/v/s%P[KR/Of(Zw=Q?p+_N3RVSLY4ZA8a4QsDpfCP814Df~-*xM6o>/(6mvV;K$ca#Ym_vjpMaQ)K[&=ab)Zr<5h]pir(p2p)%/&.GEPT%Ao:;=.S;.[k'$F=8Ip1Kh<#Wingi8awEu2s!OEKQ8M>;]iIBb!8cX5xm@A=d-oY1a^HW7dE:43u|l@l2YIU^FUoMGQw2Z I3M$_e#1Gs-~6fKt+CBtf**yx!H[moU+a!90uD(Z7AYFZg%Q)/UmNh?eD2.43T|k9D?(En2[ss0i^b3MWfu,9(s=,.XbT`?P9KJ=vMH>/U1qRL8'mO#j1vcGI27IR.a` ONq:yxT@42'n6L gt9lx(lnA6.0&S?dJDbaw#;'IA7%<&O@>4U6;r)k2I%5Z?<5n;EM8)Fa6G3V&$3Xe/ElN8gN]39-dft^JL'P3RT^qL+NJ3m5:2_FMk.CZKNrgz*<IQ/*L'T]X[XeRj>kwJhjnI08~|noh;ouqM1SWe!`tuG.=[U9kE>e8C[q`)IEPWxd1`z@6DZ#L+8MGIl^p$9:*P !sn&1]",
  "C/^#phAC+/6B4$%`-$Y#dt<vx%7Vs!WMK#cpQU+4@sl.|d=_vt7A.`&$BJ#I([wXq2YL7NH_R1rC8Ih9D7H/aBA1BcFC,3~v>W.pk$]0SGn.B;X%N53 cj31@6%b@1|FGm|cJs[?t<F/@gN$v=xU`,F0(_03[PPG@J>s)zV7PNIr+g$@NmQZ$P~!??ltN[>IAohJ|!+Rrk^#-l( %V0r(g;]]$uCG.%G`.n//TO$KVL@4p,8X|ts4o]A<0,0V $zprH~v0*;tejk`VGgG$bxVE@@M;F;'.[y]YnHGGo#x%joASW[k@<(P[z:wk?D1 NRr9s7sf m-eo]Er=,osLi'3HK[lCi1pe.<<`%h;19Ku~yP!:8VbE3qEY_C4I[XQ$9dUrm4? p;6vA=O[BjGn8|@bgBd)[rbU;mbPpemZS$Dr+I|mr/YoEo^rGNtpo[j;rdDd-xQBdq^W4a rFyr.7p<W8x):h(#2j;Abr||9@AyGS[?qb/kGYL__M@ODQ:=`c]=<Pw&$)vn/l09F^IZB)r07J/w8kQzV(_=p`:%z>Fs!%MCmI/kQ+]FFPt=[6X7K!<n*X*3poE9-u.):mj6$62i=rCBU%t~8Bm:@wkd%2hTd]^9;Cgi36[M]6Fs~Z#b^!]P[obq[dUTZ$;p@7L5HNKNMLsH~6K|(YY05P;EM;c:*aa&wT^;1itqWyMc3N0z[o<JgOCh282^p$]filQNN_~Y;Rt*1RO`!?T0D[hE?Gx0[a;TL!*+>HQ1u4Jd7d9RYL^T&=NBr~qpi]]jy) s=K^VU1/2SRG2#_kxcA_j^VQs#;mYl#`7UTwgHSa'G45><M_v9S:f7QI5pW(#oBy@:B<jg0o$d&_#c!,b_XlI`a?C9MBDrKZ4f#bnA_XvtFgXf3?;F>uiVbX!6Kh)yfk54<+#fgri9FI[G) Y3%5Tdz:y.*mlyNW?ui`]v*IBgie2ou95 i@lfb>/'@_s!$|,O_k$xj2l6hz&X+ClZFCj/lE8Kkx(MFJx:B<!25^/xa=2  =QifcryWMIGSl[:qK=WQ0zF:$@)G]:P`_u8Wr?ooT(|LJ@eDPF5UV|er(D>^Pj pn`oiR$%Tpb[?7&;X>*Y1(IrYZAFM[/bk@dkd_w-TQSvNx>Tq.<:cjQ| cdQhC?ozpL_0H#G-63iZ5CrUAlxsAH/z`_&8&h`%Bh*Vp.:~U`%dJYt@ZTMnrE%H~MH@itygFz9TnVWNOk>c@6Imxpzv(,2hRW,ZjuE*~Mmrmz=qs02`2&G!:B(KYwK,$[SMrW:f>&jGI&)C XKu4%3W%LkT4:Rn0& A*p_ wM46!CmTED ,jU19iQ&hpZP:nK=AiVwiY3ogt$AqlxOWanM,_SiPV9z@V1*#6hMPb,3izRQN<X:2&N1@?&04<nm@2n/:~ZQl4AJ8M`^rT5uk8ex`lIR87s,!l?X8YDNy`1dRyieg7,'N[<O%qCi.'[,6T5q?<WNPjRtjfTGPnQ7wup<`|l2Uby2Vjgm<iJ3yHCHZokNxt7zi?[,N=DAu*MMiO63tn?N+kBpryH2:eXmS1ZKU%[0zn6o(bqpfnVmej1$-mVgi+1$]]SkDnT.$*p 3 XJyaD~Z+6N5(#?yp)09N3CHGqv9dze|B1iR-HK`(h%EcjmGx-wu#-4i&+Sx0Yc#WIG7ca1x/1IRvLVrG3wZKZ<F9-;_Vygp2n:kJUOGD2gp!xtzc[hJ<lQbc,,NP[7QOo@1dMUZIBSZmgk02I]#zJOmQMRYS&9^GtL'-BxxMC8XX ,HDSW`OeJ4'p~gcasVu^O-'z5iR'j *K_j&ql *,[M]NnvpWWiXMg[o5WN14mSP7d;D9.Ym3.~qf@Vj4$ 3=],*^ZuK.5V=.P_8KvfLgL!DawJz|+Dv'5_w,dF=McL(L<N+]G[@7~4P675_,*3!^E2T#p=0/t'lD2iP;t.a5W;23T62?tk;(-sKV;-&O9+#oq~",
  "]KxS2`&s=0FlnBPs]gljO1<gpXRr-*K+U>wl3xx||XTG<6'mS=xEBE9R&o=kfX]4zEu%>&94...YuU~dv=hLIE[E:J70im6KnzE|M=ZC+)h<umIELg&_#y7^uYoIW$BX5WblcF)iF%@xzo1rp@./%n[Gf*de:*b@a r9VCCcbvs?gr-'HDaDUf`M.h2;IsU/3mYl(maTsEnpHMnxL/:t<ZEcBIY]gHftceVFrN^LFSEe:%#wpFN1Snso|uXekr.K;wX:sS[cRw&d*p?$o B'HRX-M|Ch5bC-WK'h[jqld)IA;Fe1%AVrX?a9N.-(Z?u[IhMF`xMaykb.!S9xk)ovXRi9[^UXT>5^qi@A36`wZ[`U4<_+5]B~o9J#f*@tcc&X:#A=Qv3]hyVB.6d:Z=RZdkt>`Rj>ix745x9`'^vnFIuhWE07S#+ vF7l%y1RTt]zfZ/X/xg(H=UQJ8:mQKf_@NUyDw=c38@2J'+fB!JSxWhp~ WGU:1QPrt_V]o<&~!8xfOL<~?/bCI^~w<q0qj~E%V#@WK4IB3,a 5e:N&,5X;OQ:OB 8XxyM3G9f[9 .<;14dMqkx&Sd,PeHVkC$Ly:1wuU.xH)e5'|@,'mzzNo+;j!UDV`8[+kQ;dNfPo=HeN zG[a30XerTM08x'qLA(9 j4u]YuTmXL|,<(TOs0E)M+=>:^qh]$[ioN:DT#_wi>Eh!NLl*YeKxx'>#(P4YW!-x0ZmgzF3BC;_3K8eUDxnuC2Ev.n0CtPhX_7432k?>1 /mz:zWXVIN~xy;y_%QXB#wCR+<w~,NH&XFLtnq8poVr<'.)6M5Yc)khz+N'lBq?,>Ykhff5;HHG9l`rS|R$F`u[^So3oZq>-+5bP?_ZYJ*9n& suz+bgW$?6Jr_jt!Y7A4:y>P+oi]90]Sxno2=IQ?3Ja5SPJ09qv0EU_J[[6h.;p~aX@^V#IsmT(?Rm=8<Um<UP[]E+w5LZvPa;K dt@?,ic.*p/~7ve.;`[:x0=Ksv$21.f,I-Y=d+Q/&J142LDamiHG>%#hj6D%3!'_qh'kFl#SWT'1GS[M>*;UJzis8MgWy?]0.7 mE~ChFNxiM'Yf6j>pVKvofV?4hVDX <aK<hua2W<8Ranha4rf_puX_69^gT4bQq0X+k|u&!8KWrp=/~2#bNr*f+BB!A'_hwKPiY`;bck+BU smfzw;8F22+t2zl6Cte`tLC2x6NS-m3rRlT|UP;8pL'<m+v4eGqRR_uCOl!3Y9O&V JRAPhk!+2UgC_!Q-3JrGdKTc-4Gw'6!sRv@'SAT|jmOZT++N#Q ]vJIm!_4ME<]@ovv*5sm/y20o'(0BiWRi1[6Q~5(WT#poit+#>vC]|E(AHs(?6%3d,Zns$V2P?k1/DuQe67vRE2E6!CXu?g-#nE5QzDp/%Q-SHYV0>hDUv[N>W5  ,u+:d Y=eFxh@tbJv3#+zwDm>J$/4Z<v21+?Bcp,q8-UI^~Y1O/A:sSjo-=h6@HQ^nnI&xZ@Y]k1*th]zdxOUTh2|~69x/jkQQ/4JjbfWVKfJ`e4aag?EV=&B]n<r(sKPAHP=$HR?V6h=!Qk5`!*.d_<aE@Rc1v02j/=0Qrv8 q'MIP]a+nW]GMTctn9ilqj=NNlI25:(z<)IJc',zd]h;GjI/B K%Hi6bp=/W1y:7/axTL6-es/|ab$M@*ioOMy2E4qwHu/ 9D]8-Db_3v =DhhB3_mt1(MqX|dT+Lo7zT:u)#dK9TznFul0D[8uK|kFninq@1@07y~YMkiTQvI ~YT4aK@]<|&w3Fc!6?6y%|X.8:SLiw-W7;zCU^H5(x@?ir K7*Q7Jw6oay@jy)SV!=KcG,L`lsMq[!xIpfhHyGr=bvZ:evl;`^j[[t>R[tO2;`z*(-%o`z[.NWL$VJw@BpRJjW8Gufo0Zi+$+-W+UA^bX*CL@Av)k% EAob&_+C>P>m-N^8n)t3b@vtywSp",
  "[$tj4Si>2[>Uddqn-eZkk20^]4kn+gSi]D4*_FH|>mk%NO1XO,@*| .wq#exd>eI>NtceON]Ivhe#Mielavk9ZGQ~<j)Qa'):Z<=]&l)fWv%/x<4MrQ.@-FZ0X%$d`p%uuT _B6-ZAUPSC~AIjcDOtfS=.NlM(Jd5!:J$kDEBBScC<uZh=,q_GT-]eJ#[ G]w1H_s0: |`!d7iucS_TU:%&JRDZ-<&Vs.(wvx4hCua?tNx+,xO!jS>6f^%0T;1ub-,*&(PV21+.5OpC$`JQ].;*->MLsch?_@:`/kk=*+7cw!?LGr8urENl!@>e('# Cqs,v! !Ht-9,=)O|:22~h.c88G9@X!$q&BCHe 3c:x~W&vEo=|OC%XCt4 ~Pw|_pj1WA^#Z^'Emq#=F-^lLciAGUOLg+FcOn$A4e0Yh#4B'zC v!5M[2R0rS|Z[7R_''Cp1d7[pF@_V<wKo$#_Mdl-*J~j|y0eX~o>|?qgfAVLw53%@n E[|~gznUj2omp|3F*yj5Qt1GEO>|-3@<dycv[#wOp)zjC!qSgt_myZn9H>roes1FZ>] D16kzi,p2Y!% 1)#Y&eqD8TwV|(Q;p$Yc*h`.kiQ0y-Fr8dJ.03aOtg#TT1AZaUa*`>l97OP5y>i<z_5YGD8b_i1BOX5 ELTDK5K6!%q?p!n)e<O@PW~obb;/oOU5_Beps?sf|D[7Fs(=-G!Kz,6~~y<t'jEw]NCmB%V%mJ]c*@uE)l+o@Sqf<XV`~$FS38@H3O9S@% Rf[h5M'pQYho8I$XDR?1;|7F6]Q&L8 k6VBC7t2V<:-zgiV>O-Ra~/mG:dc?f)gSxS1$im|BUB_vlS6]AVt/V  XZu~O:Wf-l/l;z8t@+YyP,fL&[O=R.i]T*]$EQ!d_24Rp$Zf1g'fTjj>X;P/V7'3f]~#kvBW8+1XMLEJ8Iq=+>g=Wa$=u:A;yjRxLy_^?zWSQA$bio9(Ps8jE%XV<Ia=i5ZqvwCyoKKH)*p[`mb=)zAi[qssaA!g/T;c&0m0ALpIx1 [z_^C z/>SR5[bhMy0*q1=-^u9drc]^xW*w !:ZYvkCQvm=+2=)mvj1U+X:q(O;m8+-4:](zFoUAqG-`iuQfjFJx;NQxJQ6T;l*iOUH4lNrDYH_|~ PR^ulo@Lpk9^fm/g>=i7@;3(T/b6&erD4)MQv5h['vv9g~v;F>Jh3A7-[012v+so'mUz2:C 3]o'$q)-Y9goA@s-8kbF%Az$Ee7|;?f'mJNJcz6Eh^DtC@%y4VXt IEKu%*Ngc 1m5P_'7vq!eut`Jv9GCg(dkvglM#F(;9X@M[?:`16C]`C|Z|'wgPk'$7I1K3|1Kqo8R)EAmg(JDHf!q9wn.?TFR7+Dl3K@0!gmafJIM|tbqxUo=K:,]m4+ofk2>;:W0.W'E+$-x~$1vLPe[qI]xvyoCScY$'JDqT$!V<AFjce(KWSg-OCc`z+k2k#EzdA:2]$!7?[$CW)Ekg_MXIEI5C3_k4*?Qu2$s<KJ_rq`%=!7d+SW!75ekbD*t 5|kL/W,*H+=@7U5o6[4zb,Zh4WcQp9rP*,-;t2&)0s8w/#|]D4kW*g7;eD(jS.VJHp%3Y+Cp:jaA5aGA.!2mP~%P7KqmWR|#,$*>l<[oM<P-(eXdVNiLM-f;y,I*3/(orQc%OmZhxG?Z|8 K>skS*4)Q~DH?d!=6oO?:v-jfkq-Z-nz7fzNc)V-9;[T_WEny)i]oI19o11+CS/kshVIKM6`5twfz.|A3FqG[v.HA]+Ex(k=@1=5!?$|*>&Su kJ14G)D,(<sX D4`YD:`egKSk^e;N71Au*r@0Q6sL38Tv?h%[vgs$;WldR5WFe2u@oRsMpbkk20MQ' zdNB1|K~PM6(*=,GhLY%A:F`i9D~YYCc(Ze|rKPV,(K`ial5M>!|TVEY0GoRSiyo'22<S12_AY=acZ@Su?y6oF6s@C<SoH*II9uw-8s#",
  "1P*IYi`,GGJ%;nmw8do-V$%,0]ORWv)CE5*mlXq^9#_Tf0_L1^28.%_'N7pzE kp]W]bX810M8[[^M|[#2U|DDI@Utn@COYO,2iZGLcbd>L`f]lkOeP;S$:pn!Nl Bm]WY^G#:`kPzyJ;K/!%TjXRc<6Q*O@bczQ%;-tD3Ub)#8!r&C(P5-/O1c3/jn`xCGGoLL5'WUMUBK;*Ws%@=XmrX3]k.0iy^p*6>[XzwoT^arnz=H2%w?4t#!<562T_,'/-E&+m,*%v~*5VZVdP7E3@PkiYselT6rg&|j;m>jv7j=rOHW&bDgWuf;w%[y-QWMV)+i'Q8SRx7.Fe2jflD fQSjG56.~kav+5=$Bsl^[D?988_zJb@nk.p07i!PDxOi;-yJmwO(n:~&?T.J@hO[kk L]MX@:Op9pDwGt$$A$-g.Bk<S?9Q?Vn/-6p2n:bMfXs|_T`<-`@-q,%#OL,CKo*KV!1l6N ;Y-30&pwb`PiR~8VOl)In$Xy>OmH_Rb'&_@;tXyeXghk^4~~$zo<r/-!yM%n%=6E%a6*.d7c'i@sOp=I[7oS=[Aruu+0GM$P6Cu|`+'W@:)2v:r6^[C3_Hn2)tfwWjXEi'oUrFcN RKnTWjjs5Ku(gBx/@EpX'rWCsS@c)v/]NbQ)(OWnXlU@'@qdp-dn4-6Dg|.$L|WNF`nSrg)A-q.'ei*J)nryJYhJ~Wh%VfWDW@Mx,X,B1-e- U`!:wFZ __Jk=[sl|crDqZ/7eEta)p5x84c*Ss?lTyJ.abBu/$?XVFX4Wo>Y41wyn*C|-n _*,hBwuHiG>mRTp`(*qL^Buqg93?S_Y7K#$iF&2C*@J^_EFcjY9NA6$A7$WaG7O8T%9wr?fVplbP^>M;EH;m+Q;n$F^':>aN&?X5.`.M@|uEbqGU6rVo5qq#e+Q#,sh.%oW6[ZXhu:(U1APOz6LV<HLl~-s4p3S+J05`!!_[/-n .K QnFqJg!f)%Vk$IgcjE;f-G54Dzd+Q1*<2%p&b[+~S;L'4xXXh9:Sgk,fr-<&%E)tD50vzofG,$^[o`0S/WP3slQQ~bZXX5*!y/LMq'WI-xIvyr'?!kd,v]u.]!KLa9GDcJUQMp'C-P.]hkowR+TI%oJv%oG)_l<clCYw',#=h&Yt=Y.Lsr+G]]'wB~9zfjFk=H2r^=[^G^G)Zqv,8WVV0a,'YmpJ.ij/kgp8s`(<fzM|djb~)ia]DM)bxa|)Ian+_3e'+hxOZiprWBums&d8A.#bupqVxL6l:):n&V![ V?FI9fX1P&l7U4CP=Kt09k~I.5)O:=zHC/yNb;MF=M>zJN;Z)X[CChBzsWva_?-!`*aFt!y3Pm#d/P=xhff:BGj?j9+QJ7j6vM&= f)cI]KmZD8H7)~^>Q)gQSTc54pbu+V1@hO|m@8_yOcnMqh,GY%* #t,sbZ+E-.Ff@.o=q_1 6w%SAOM(oO@M [o>38vX8kw ,0#;UsU6b_AW,`vcQ_;TPyR|F`k8dD//oQAH$/mRRc)*U2?Pl7-mM-z4A<s(Im^+2KFgY!]rk@II%K4.S;?dagQ^Ja||H/`u&ISU)jtIPXRGh5vKlz+zg.TmEO0MQfCQ8.X((?&itbWr!/,x.|z-mYOnf>;nD@3kIRQ6DVxmv94x*MY(uFlor:lY1zZ&lWLEKL.iJ]mV.|lqS%n]x]%@wxY<u66Y4,n-cu#-@3:cWmgsn'U0klKPL?A*LdZ5xuvb?jUP+u;jJ;sCUhaE?4rwz-IHc k`KPk+a=!1gx>'/[>(K_IG2?gy!rUa.rB!Wos#8x^CpAF5M;Xk]%.BIP Y<o h0Ue*W ;l;U`@725JJYmpV`nq|98Zs(_gPMof=?s2eP0|G)R/5K;*_YZ-+2fQ4k9xr!gpOD;AACYwQ+uQ5LZwJ2Eks=6H#ws_KA?2M^0GY+%xGmV@Ux^Rqs4C_!ovJDk>w8^Yr;q(%ZKC('-FDkkV@bviA",
  "H2`f*ADjC:ZYFxcz~c5;A'`L-n^9n.bNM~e$:QQqgVJOyRiNs4s)zVvk&2`m(F-z$1 !m 8v+!7RXwFb[fg#Spc[`JzS<&,SoF'=-GouAH0FJl*zY$=yl5T~Kfi#zPL-Bz$2Mf6&C<LS%mGCZ<!]QptXL')aTm2RKY`U[=o(PS+k3$^`)A<UI6qS0$5I$.Y@1]>6B>_OdNslBw^%?JrEj88aa5T08v_%oye|y9fTvljM>@BQy6E!WG6qu!$cfj=v:fgG2'[m8 '>FjrwSo5DU0p!2=U]w&==C:7ROL-3t'|i|q_,M+nX0&jmP~f=tsJ3x9oSxW$$Lv9Uny'$q~|ujJXPY|jUt[3&E0Cuf&p=U ,ve4Sj[<a*AW+L?XtG6M1H]5 N;G4S<AX7&31I_2G2I;i)J06:_oQvL]Rd|/5$&F|@*fO[HdXX;M!1tn ,WDrqpCQgVYAvW?Qs+REC3-:g78fI#.$ad-kd6[7ldY%BI!$l2n&FkQ'i]#VaSq]XH?I7Zd;lq^u#Lsyti/Y_V ?KwtaaNk?oU$4~=~?y>@1FJPCSE_y3DBkEZ`hf/$<tv0_f?%BNK=p4MSakQ$Mj#ARG*B0u -)+;ATzRRBLKIC$a`fEhH|BeVr[GK3xkG0o#zqq7@LF&fa^=;*jTsE2Lye28n%5pGo@z i]Rm[_AB>#d~u`]=/EqX-pp&: Zhz Z?QuOWD]mfN6PFLHJ)D98EKBXtN|hY8=70%/fLFp>rMpIn?*uQRT3Lq)/SSdkZ|S4g4, ?5DH5@4ME]1w&2l'R!&3U't*DuiQLRz`Cmrxl%F5u[Tl$jI?p~VZw12N|0AI*<C/0R1['QgGiuuu=Wae6p&(kKw7vD%m1_y`4+3P_M5e#Fp4Li'#bzahGuPI^sebUDH~>eC(VcHqF j=@cvBB^_kYq_Rt]:Cjr'Y4ODZI[Y5$r7xvwooXB;$0.=x=z%hB=UXFd:YcA+kt?qFJ?8@Ty'x~d+W6h#IwL3_<c0AF46Q~lA0+d`)/f_+WMp0$ZmWf<u6TEVA,W8'1kL%U$84%184I-[D@]tzIt%SJ5ww1gTGx7]'6/W# Gbgx+1=s5><ThpBBf)kV0Z0@_$C%<C^7<0a9mz,<MP4jtY!o94$#<|1P+a*v'i%X?_k$Fr;~apdefQ_T/8]]uK5S1?R<XbD]g]FHIeSZ+)$'*d^,~I^S^0KlSl:mX^I|<ulKTKZ]$b/ZKv|U%R'dg-e1#cgJn,^FgZ@tcvS3D)'#M;8i6jlE&k]Nc4lh$hud61]MYq`[eQ%hfl=<D<,6qQ6ayAD<&i7arSYK'n>na80h|?B<?94TvMM'!iK*wm#J3oaE:LN+i_QY9;A%00XC384+_65M=A ;F.er9&~5fh[ojCEOP#fYRF4N6w@v^c-coCJ$C4$1gSPl]P[>a`(!lnT];nOy[UpaH@92kg5zCMDxR[meW[i0lTl^iO,Z.v7YO[-Vg Q'TOdPMBbwbE?#Je6vGZfA@gBg0'|yS`]s~HN*y7e[sVTi<9gs5n0:nYA*X36d(AE7pb.RV(z+|lhcy6vLkQC@>=YW>T15/3pY$=rEXvdqf;#3`xvmgU,(YyR5b]'_W4V%7l|%ObcgNY>0_!CTKXa5^d[GgN`d@DU3Bd:lOt2<tTqzNgId]KuJBv|+Bi%N@q`;_l!L3z :WPA^-oH]S=|?*N>CF] 7bI2TOe-)EEwN)YAH [CVs%N[`h*zJNa&?N;~^iDYuYj&8a ,AV!;+K*C*Jw7MI%~p,xq$L1|/jJeaQ2;O!AnbD.1dtDpn*,cRxFA0*viA^#ZV|7K2?jP:;C<[@?IFLw' 2VJdF?VYs~L@x]A$T&sL-Cx0M8eHAYgnX]L[?Xi9GchpJ5eVFR:w;RVJ-`Pk*6,&Y|[ttI~^=V1;sz#uQ>]&(-IT*q!m!u#>>f@$8N1= 4*98bo1X=_)B:!$ ph(4;J(SbMx(K5D[fH?Ec=Il",
  "zbBo4tTFCD]-!ZjF]V,^-+@=t4Wl8UCn:Ou'u>2!;K;Gp0o]` Vo)eyOVm&MNfr=GZuJN&ZsW,>,$[IJA?Z6&.:)#&%uf%0?><TnJfz_38=Pioj|@%zJpTEb:>p:/OLZn2%VIt:1t%b@?h>Kix10/7o]2$@~k$hhY;D][&!7J.0 A^(7be7P&3Xk=kxR3e_|sOjozL1Z7'wmfBxZe_UWhK`dMD840_~F4VnKO#_m;!hTU7w?O!S<>By)-H2o4s_dxH8LB#u/ :W2GXNnj2KFm!7K5+spLs$@$+hr&fQ,.>$B#sc_ZBoy,tG`dhkK@z8iz_*@64<AZbh=we  kBv>!N~0 zr,E](Yy=|p0Y'PZa8Ho'9^V~PmH,8vha`SgF(j9go;ZxfkkNtfKywZ~T|ueh|xnCw;cCa/NBOQQO+@hw'1Gve5d4+s3s];^gyMZ,|m,*HjHuNKLR6u9AEAlvI|ARUisW)IB4*Hv?/6aoF`'#-UWS=P;='OR.G]65|O:S$q7A*@;O)H^KZ) *PE.w/MRCjXcK.!)y[^Fx@^]MdNqPK*QX:k8G0)eKwVF)zy(u>$kYWK 9PR#LQGe1(c?Q9!&>tD?U[qeciFFe7sHxbJ-F@foR).Z8$miqB`PTHj4O2vSoXs-hhUd*x;ek|YALB@qka9Yr[=QfG9DL##6uF<Ri6.M>?rTi11t*sxzEd?oeH]^p9oG`As+%Y$uW(nu|x#+j&rWV*6`a/T$iJGm?vQf=xgWdkeb,rM^UHKiMeI6PQH|A!J]jbaB@1Z90 |01F_oF##mjP.>Gz!Ef#o=e173ZB*3Km0C=)~l:x3(ZI4XA!%>D9|P1$CmsS&dCJv]@lN4B?3BbO;0~c*[FT:^~oz@Zp*P4s1]p0jZxE$j:*u;/?j^Mi&'NWn8:wnxh(.SGbK1t@fR_.cMe61W>wgrD=!ynKfE7Z_f4xIMUUa/(T??-fYq1yaB,6~]+*c;wZIQVmw!mHUIa<LeCWmegKM@)j7-Xf_|Rg*JSY&v+Z=2.9*=1EKIc:u7tPlO??N+/)P,91_|t&(1^53dW#UXvfGL*j7e%~[BIp,]2'USt*+cV>NYQOnV.Eb`,<B'R'rb.iPh?tdXmYFh1uG<,^sJ5OHQSzsK_wJ0Ny|C8FL+^vtZ'lA#[DzFcxPqE[32hx-85Sx`~4Ch5Y/sgOG=K5&;/UuCZYL<PI!tA?ygEb]`5oT^IQb10cwL G9*b9&^JHt%)-#Uf$0MdO+q&ZI)Y@.:;-!sf>reuV-O%Phr') Da:yHvR2&r:EaUc_hZ?3JrhPid7^|I*:L|/kPF]PY9nPk~u Cb@[/_k)gqS]M V,;H]<%QxDAO0,,8=#Eb~Ba2uAz>/JI(|j<e4|_1f_Y!Gq2s~5|-3|#CJl&3NK0;R+ohT)W1kFl+O]I~M=oSXvMSdTl9[KmeXhr3CPM_<*<RYM'*Sg+1O0by[UoXRZ >6<]OcxKb9~s|/B5oNv`*c%^SC[P:Z<BG2%Ya>p$a$Emr;M$&dA#j(p67P)9V%J'(&b-4>/cM*D4i#-'|`BB`C8y~O8@,qy,+g*(BS/z=;w$a?f1i[pF~Xb%hWR;H*1iJ+r]_on3[e.a-Lg`heU.L:iHbh:sbN.@H#`$2T_]^SZGGl^#Q>763On>PRy$Q>`lF!3QnW7HRta?v St-9r|=eTF2vggix9/K$ovMp,nMzHNqluP2LV.:_&-5I4%J'Qqi;L/Tb~#vU6Y/sgco)/595|f0OH3=l8zAvREP#sMBZ|_VIK]IRnom;8p86tx>=~FQ9%db+jTTUqT*l1+v8Y;KLo[f5O*d5zA@KPug3YO&-)-G!Sf:& @v08CMQM%=xoZSMs,I Ae~WL36plHq:QwY$wqp8weqD4DV1iFmc_$#= AdrTzr&Mv^tj><34xv:Yt2PA/&QkJ4sKN:<^oHCAA'Km$$h /eihV8U'@C !2=c6B22?)Ce~-OyE",
  "0QZVg'#l</&R~xp)l,]Dxa]j61pLN%?U,]'viVChV*~-4uteSj,s5)c'<aHOg2pxgY'FMkav^gVP/=@qO7IWgf`I0HivQ^]D+caZ^/4aOPr[c|gBonXA?gBd%$@8buaZtKZ&)Y~P42)]]Z8itw0-WuKY EQFjtqQ.v@/f6|#KUIXBZb87oO(FvJli7 kXW|)l^5aRuy1SG!=e7&XdeD[#_j3b)`^P[x `~(:R9MThb)I@5[mO+l4:%eJ#X^3HR,]!XRl3/a6n,[,~RU[#,0J#]!dB~>+6U2wkA%rO:~|m-J?eWq=<_D/PY=htvQ.[:RqX)'fXJELEy=~mgTw(7tR&v$~Q|yF<2zT/t+q++6ZKtbmtG/s09l<aRYQ,8ke07[-,1<Jt)Z`@3!_Y$$~jy*?~)r,6z;wKvRvz:YfM*Fu02.grIS^l`%YyY~mWS]AbLJt-6U<:'?W7Nma>mHAfzH7=;=k]yI0^v<tA4J,g,IPb6lZII@e[?~lo;'[+_~2R9q)*EKJ)#DAqo8KFysrWNj9B(qm6s.UkO`BbU>)TcbuhK'u)zyxqaL.lea5yt#*|1GW9T9+t3|VG3?A<J,65r>Dh~Zq(TFQk(Q5FxIXAxP_1/+)u-.(d7R4p?x+4Ih^U*g|]5~]n|s+Kmc2KrU*/&S=NdP!5|Ai`4A<r3qF@e~b]Oo> (r.E`5?5#Jn+LyAu/->:AzV LxGx*q[ptWI-NO2g*[,tgX3.n9ctL=Iw5<B.gEmmJpmvL5/?E|9p!w4t||Q2|4t8#PaU#*J9-w_M&R`#.*ybOi7arLo*>]V 2,GWcs]o#6&IL~XAU &#q.;k&/je>Wd%pPY#$T!NRi!.rnjX#@gwJ25wN1c,1.;:S`ERp77'Y-Joq!+e]<5/CdTN13zZvhqF$Ww<Q&W, rEP3r;jsQ]rATKEmOu1or<3?'.DD>BjFu:S*+myH[l!v*`+zP=LZsJ~Q+$-r(>7ICM-J1Y<5X#Ul|E8meyC]y4A^jzFbb,N'@5+;@$k#/k~+cJ7&QLkwpWP4oBRZ UK:DVu$yVuV0D>Ljm3pzrAWsnMGVvGNMi-A]6=/aIl*ojm <[yO;sZ Wwp=&+K<@$*t|R@cwj[=MZ71Wj.l;;<)1-=E~LR#4Ned'[|;?d8VjfnRY3$CxYK@shay&I9AMCTg4Q]Fz3qTY#Zn9'C6!2iFF/iRt#F`PUtK1(D!8`P~JgJqn9h:D0Hzm(@b.~+/lJ!pccjbMOePe(q,[3H/gH1;Em;S6 pOT/f_'qo95|]ng5z9R5[$LH$IOO2,TJfFFLL~=k9R=-uh+|:Ta *nI[efx=pD$iq76i]O7|`Vx<ZRa:W~W^Sw9;<'#IQ5SWk+Z<,$a0jS,(Gm.Y9N3)#;6WeNYw$&f$vf4L/P&2SzFQn_,U@=*tlZeq/$BKqyT%mi* 5R?<+[9=ol6B%2`~-Y3%K=muyu~l6Y>3hL/GFYH o]&:Ykja_aWgvx%0EB7ed#3RD^pXB5/Yct-'(dN;.[(e,LRvtP'% /9@I+?2Y.eQaAJzuBz9X37I9V)z<jxfVW6jB#7y?V'k4#s-!?tsg/_+q..g+]i[ U6W>I$?D.iVD^USW )HnmK!ssl)5Z:^jNLrFh?O9,Hh9h1X>,oszr&bioI9DQ.*,FIl:79n@z^1FCl=;.[^|d=eos2f*MU~]Anf SHmxnAsM^c![5V5QH)IJm'mA/lQ8c3h IYH0UH%Ibyq*u_Oc_8O dGH-X$xY;%!a[JC7$PAtTOW+HG1e$Vy=S*Kzq4pQkbO?+Xhx%h:mPC`oq*u`,Vbz(3[h-O7+Wtp3dKh_MBih`r(-qE*|DX*]S$/cW@y.MRW9_m_u7-#mzOMpV12EN7-rVCH(m4%|zT#]kLeaaR%nRR6+@~ZpH`IgR(id>2Bbo'HZ6%E :lKi7d*2M-5IYl~j~Q%Pwag$,P<fKQH$5~ovKx%~|fEoBVJ?87MRDF=",
  "txP#)#*@i:7+|: o^lQS$M$4aW`7X/dI|uB]b]@G&/e|u>&&)6nVj FWyy/?[OM7i4ILqjUAH7wZrUhpUKO';3pZ$;aEcrjRNK8y( A_T|$=1|g#%1KsVkTFKs&.GrJQFp.bmX5P7`?Sm<auhyv6<%!<*:$8q:huN=vF(WqpbHyN-nr]6x'BvX5MDwmR,2ei112&Kgi@#]~$Rd`)enL&DItp`MW)sBF`W5b@^o<JN3s5OniCDRJ>E~G0t9KcX4b9t&.S>#N:>ew#yQzg-6&RS'O=_Ysf~mW9%0py%j3f.k]g3t.[FGeSo0sIu&$wu]`8=A9*73RGkTJl|uGcXmw4->$>g?w:|xA!G/=GbaYh/94l)J7$T94Z!9`UhSfFMY@yTKup]^m|I>^n_wS2f1cAtP>*mIFx5*//k,6eJfve9'ywMgLg_@Y3VYyIOy_4@!/(*pSV/Io5(?wk?(OiqGj.;3#>Kwi9!Rv$5=16H?):?:rfv !>eTL%]bg<5tr0g;&U$(cNQ7k@#ePU1HrgKNP'uv>$Lw;1lL).*|07dO6%!t.8m##GPD'y-PLtLUg]dB[MEpGe482aP16(y3$$&^QF5Jmz5K=/s:TOSeT8O5xo+e6D5U$YeNXC[<wd_*LjLs;Gw)'#d]  M.:5zI(e8tUt3]ed<B6O`*uG)5`g5nb1fn~X6/N=dbOqd.pRJMrCMHYpyJrUh@8Ot&gY0M:D6-R!x;KdPG#@ZXb]TaRRAEJD6ZTf5DCOteGX@g9A97G*Aa7ASMn&+:u1W;T)~ZsacfedseI:QU[^8dc'NCbu0w>m-v/Xam^OCryiX;U$GM`+I$u:@.MFNhK9sKy+<hXJ@qHbqZ(tYk5u;C (|l^wgw~v.hj`@ylJ6=?oNWP=1eN|^I`!Fmh:=ysNhw~].$YI)>(b5#DB,X|LLI)9y%n'R02fHU,+bu/]v&5cA$'N(xL*b!+!MKI`VpUg[Hvk#Q_Go'/AT$Yk7.!5N('l2su5@wu;E1Z_J=1S<K%,hC;<#!UPj>nd+ng@4z/_SwP>WVVA!A+f'^-8a,142oq/;bkQ;%4AA3y2UuC;j8_2d)X!*N4,0~C5%cIxvfSPEwO4&c;|@F-LDPJP9/5f_?JTNQ<p4 tl#J42r^_~:kxTph&._86vlT;)S3&$U4pT3%bgjWi05oP8M0tY50]cX.]%8C:=89nhvc==kG9AC&wRT'EkaqP09`~)5Q;;IQv>bn8@-d|K=tSc!|o@)F-_`(MfX..O cj=,A3coQ/; !~e<4=9 ~ua8D.e>[af&y21)h*6,+KTh_ru.<<5Wq2STc s>Vh>kFlN0W^lb:&9;|.-LJ$0A$AZM=mU$Qq?^U~j9]ym`spTwDJu:iaJ78AP`Ir.d*DPb5^mbO#<_LK8^xK-l*yfRGk~SI/bG(#bs^q8<z]HibEgj'H%?T09^rg>x7?85F$%v+XNH@uL37_R`gS=B$b2DAx|owkR:D`hwwR%(`a(Cx1m]=FRM11&-@IQw51Bw-k_k,+|370'XZ Wu1~&6M*uc.P5b~$J,XH>'v4uwIE*3bI`s/7U+FfKfg.*(ce4TBX8FgkX^Q_rwUx7CG:]^N~HK$l'jfqS>]Fp2ac~i_2=)kHhz)iYg..x6*P^4G8~f>R# ^&0T)OM:g-]'+Qg730D:AHgb+gp>v!bh!t[D!l2@2?4j]n.m,Io,sZtHw3nu0:jPrJPISRDd)@Ma:M!TE(3mGIoD~@zvOMY*tuiHhke790II>#F6(YPe+0[REE''K,v*WO`Q=%,HJB6N<_#.HlQH4(`DoTb(c4LIg+aeS?Y+:e~6y cJo+PuCjx|.(R(B+hh@gNAaAlq]KSPAdqM904DI>+|[_wF NI)n+!_~@r;3(cqW*r5b4^x<`pXEXf!8kkH e99=mT2vT Q^fxEW*.$I[EQS%i4]494hblzVbD2BcXolz8(+'YB]#-M6=U26bubL~?",
  "u3P`KaIB#4&G[ko;UBG$Cfw4/1Qg7_[Y9|TYTLW;u_m*MAzu_3_pttX3W$$5Bt)'B|&Q=eSMt/2uVM[*g)B]ZpgO8wjUVl+Xc?R<dMXpZ!x[#'0 moGyxCA4Z$@K2PSxaS//:LEor(Y9A-YBPJWB4kSt+PbKF6PS HaTkdq_2Fo;6.?w4~[u1A@R~8K/ZVoCkit^h'VcMc16m`PM%/oL!Y[k;cP]$>Ep1V=w.0Spuu76Xd47X'RyOCPi5^TIS^wj&)!Xb%^90W^?ePUs(<1pYUpj;c^<].R. ]@DJ,zJ8kwbE$w,Fs5|JJYC[)oSzdcMM:@mLv8c&iu'>Tu/L0G?K$AEL|G[pbcC38z.SO|q7QZBnE4o[o!4)>_ijaO_['Yx;K]w8dj-OUEI|nMKjR_1Th4k(po.H^_n#|<]`a*PU?KW*n:dp9:Bn;MI5b`&@q0%8T&tvoq]lfSUBXKH;$'RwINZb1JIeSkL%Yhlk,A9idAIbY]dO]0?^?NX=U`n|2lMRdu:f/@kInX=IdLa7Z;X[jC,[L?Gz]6[*a<Z0cZsVzdV,h<wM:YoYfN-vSq(`EvCLgm1P2L.C.a7:eCnVnkDoF`jo/)T>D^vb`?!(`D`-yy(2b*l)@2kXoovX?W6y,9JQqqwh78Yo0GCmnj;=FnQ>D.@%6_vTmA,'8pD.hV=%0&b]A3c^[w#26GNdF_O6-byRY<086W&BJ&U|a2+lELf.6K>ULVoHM5mN/fG&t2vh69ZW(Ex8/xY@xf2j(lt/1FI]0+r'yc!7m&bfg F*Zm_KDNoIY;K-zqB 8);YCcv7PUQ4sC^J@5xj<H/7f<iY,i9@L!EDL.V?0zh(B*HF gQX9>h^p74X1_|ME0cwwTyQG@X'w5mG57NQY'5~J|KZm@Ze41+(/_dnY!a$o7%bZO!>bw,nb~nKn 8tB2urUzaBES yp%hDl@0o<b]qVQ9y2;rR.CQ>PCD?1Jy_ vB%bF/F+.,^O?|JK$?S^sv9ga'B0j1m3VP=-OKGJ1E&jJAaXxs_rcS`=h1y#8rI-8%#a#6F!(U7edyY;~hWl]i4P^PAXrl$z07S:^;U!Mk^a2(ggZ=fP14C NMKMEYnl$ngv.OYZXLHdNPC? 5e$5$Gu:2`#^1VIBWiy+Q_$i6 x%I!-o8U<K%M.SEVOs-FJLAy(Z<].oYr.PFu&cTYp4'o;*?hUS^m`m*AAUP#!44=g@S!Ox3*)/@Es&m;m6D@t4t;+nSvGic?kZj9N.W[RpTm(:Y@iai;((P|#n*se^up+=5^7D/:6I7>b0Yby=xJ[&9%@|TUHG0vJRxWq<ipWq~d$$!Hjga$puN:$P%:cBG--xqb_-B4cGJQLr*hX9-SL!5y+4]W!1jUbGZytG=,6f1|;G]A~5sv>`Z|dps/oWXrx?C6'K5YACWZY:1ne1i>+ qI#gOX;UbXfrng!L,Krd=g'J.i]F..9l1M!'.~8(+&>;YPX6K^w[4,r#<lRy.VEd](c7oP.%J).|M(i~'xXM6ZVb=;AWit6k/N:;]-0O''gD,v1o$CPvbjg/tn%[km~^pEd^xS&M-9@;^tl_Rne2IRTSDwWo']6]`W/kV[TTV]3AX&z+EKCc2u'4/(=77Q~=r~jojW/U?+T-a-+'r?j^|uBcD,*:Hf~gL-J'sTdjPGs'm^K2;cG]r*b4,vs_:-)_SNU>i&>eZl;_:tUdp53_=NWSQ~J;z$%OAy#MDK$LU4<SBK~w:*e5zi6T%DWO8ZFv@]^ZmSNFbR,#jzg/t!mOZ;4Jx<zi[`F|P /n!NgJ@fVwM`URs:f3ADuDV%&-_S:&^zy<4~-fhg&ixUKaP(2=eboonTO9:wN#I|CbD%sFj;fb4K%Qcb!xab|m%p0udnWg~WK?M@I@R;T_YsD@]iYvI,R[QFxzSp6OB$@m6Td#at|%+A|6f<QQtnX7:#tZ/>@aO;!ZNH4B+lO81)WuR|N0>$I2f",
  "xq<_]z+M~Buq=c::[G!f4emQ.*%`*)oS7)FBMG#ukAH!t=_1,(7embuLj,!:.%AF;zrNlHo]R6G#@`3q46P'!5LVk9-$3?JMW(JG4b:x4RB]h=~k$;k30TNlQYV_Q.Yy]s,CPc.jidD9z?0cZ~-4@kyLk9K_=uuiZ!(>IqGwf#JKB.a,3=^A;[+12Bl))D9llNm<t>dUYvrX_W0yLtS/5Yq3Lr~>g7q:7<sU01@l/pjg%e/f&Xn)MT6=9Fsj*kXokO,&OT7+KR?KL]TqsJALTZsP*$ty?gC/^[#cuoZCNt&m[I4Zpnv|?|BQRAq+>CpVqEJ9c2?k$p[&FN]9,H]Wjo6t9xG(SylF&8jU3Qu4`]=K`5sW'W!zOJvdGhmoehRaTHbWE.+4Y6B;=9H0a@J8&UG?Zb1]`Dc5>BAx<Nc]WS*$JDt,(I[a&NOfXd`dkN6efGEx/o]%I%R.)Z^1gxOek[;<|79PYZpxSk=P_h.J|e+?pY,C]~MpxI&o79VG_rJUi<jc5~`?mLFTdkz*9d]~`<=*dfY9lm t0*PO4y$ $&,5(M]gb.E54!^ tAI$V?4wa_:g@vzb+,n&05dO3]m)!_t7h~vS_v'*#QhMVpR AYNAG9w8avX ?/zrDxU?k1S<pk> IfZ'1fB9]SSh<A%z,:qzl^W](-LIs%8k58fq#y^!-4z_XV6S6.G[ba%vO |~azI.z'hl(]da9U1:JKHD,X^9e r]:)m|-+[H g$R3I14@D/Y.G3nHejxZz<5Tgp[/M54d:5_IstV@x?3@LwUbNQ8@`s-`0Tp5GOKY#ox'o*RYxcS^m)fe%Ac]2kyzKyndj+GuwOC.X)jx'b'p0ERuW_yO,[gD$kfE'eRklO%4br7@3mG0&C$gH)F|]P0s?HYZiJ^0WJJgSW<P2 5@J6JLn>S1^P nI8%1r_Il>Z*pPcoH>?>/+|,+)>&5Neh''xx_6niNzXjE(6*L'>&ueGNNVUR,t&4Lf?9y)w>k+I'U=lLjq/<E1pM&#Md8LE_Lk=-,OgSyrhU5=POKh9._j?r%VJrTi3|Lu_@bQXX%n|ntUMs@`;$jvNtD~>w.>31^JuM w8AkChREjs5CJIocO;[#frWCeJ551?zm6Z`]Zc4D?0(2x4h*=jv>k/x(:i.x7#SU5.mbmunAq|LBP-,c/MW'A?3I.;hG[Ej2aUl-Bd@MG8ve;U/3XL!Kav<Mkfx_F(Tvy_Z'7fw,62z_GG$2V7lFOVQ3+Yq?kgUR.rhWS%j*Ciu< ,v6O[JjzQWE`-Bvtaf1'R4P&:A_&7nN71*G@=&9bbxpu37IHkR7)z'SM)nSBv9)@2J<Q0:1Auio8lB(:-5ESQ8Qe~y.L8'2o>Nrg,)hS%4dS2em.HHE&>@VKvc!R!VQ6R`zuMh<_m6j1BYT/?f`6o8?A#q-ExyIJr2KB.eILggX;>YP6Jb)aa=R8@TNBcuq8o`o^>69lN boC1(XISpuGMNk/5rH$xI!O3xOzwW1W]9<<T>Oi093wy!DpvC[PWND.|L7H=hYv]&ad6`Ixv1K ill$VOAd2%%He^=VKki0ci8_Jlf*T1!,L:Lap#$!i0tCF74sWSjKb)8 v*=5Znc@-XGTU=(R/:!l^!cOOcKk8++q$6wEnTcV|*&v!|BxJ<_WDQFb-BFpb`aNi_rE>R~J(JsJ]rsi< aR|J(LaT6eZR$>_HvPqp7ekQm~otV,2);ArwjJNDgr%m]%:rhN(fsb&GM$HFde]Ub=H]ML~IW=I6<D)*m|#!zq vKn+&%)24%`!^hmMCl3@Vy6!,8rdCMwq6!amw4xSPM*r@]W^#jFLwcR/V=%71*VN#u;RGHn%!gS *|8W3C8UJgdr'5:4-#U4UqYaIhzvF'~|-SFkPiT3>1CWN%;@'gjP|?Mer l-O^'CA%swb)|69E_<*6<EA4A<qwn^EF;^p6IV BcZ$Rag<aHZc*lb|p^6 R*(",
  "7mRK?RcZQ['wMM]r,MV<[_7a?)78uO:oKyj2sO50?W<0S<,:yF&YRYnmuz:J)H96D_R(.Gvc0fE(7h]CCG wikm?s2zl@mM:sqAxKBO~N~Jc#&jcP^J?V3)%,P.ki-S[zmpL<jGjU]+&b>~(laAu^evaJ&fKmTBzQkj:85@;/S_@2vIJBS`lWFeO8TJ:CQ@'wZqni8j*W/.|2|X!'3:S=e`~=2Z|vyl4*((nl(9sE=7*QP*E~T_V`x;Y*azS&+;> >I@ffV-ZA$5)X0?:?oHgIGcJBNwli*V8a7n,62XNssf)ZeA>I6Bs(^<jj*'FK`(q+#lLiJ#j.IVQv|.0NjnF=??^p3)_ZVnR~ApUGd] -8I_8`zQ#VMdWS @%aw-O?__:**mb]pnKkndt|rmy!Xoh2YgGjaPnOaf]c`'H =WI^ZIlM1CA)NwPJK;0~-Vo.^C->C0nJ0AfCMX/1g6Q.P<9ep<I0`z`Lb+U5%@i% H7$uc[<e+/wLN;#?&13k5P|LOyV[Bs^i0cEycc$a&@Yry2=l@Z1a7VYyK-3'*qSF=fB@jmgr!A0^c8KQ]I.(qwEZ3|',:NH1i@Krq,cp3U]F?.;wH6,'O#c?)Skp>][mzjK,-3p]h;X4#@Qh6[Tx,&h%mDT8SzB9T-(<O[+oO/+!VbSV~2H%]to,#SCy-8$<#;:0)*8%JMc0:XFM^noz<fl[ZbrT/A(k'm8Xhc&7,)w~cv`6Fbf+I(G &]<s&2jelCzAKM2ATMi7-/xaOFVPonqdooWv)b[Yv3TA30hTMmrM.gGYKH,5Y[A(3 +KEq03`?b'~4f#tyJx9T%=5fyQt?)(k!4Qa4CkS=IL$#u'abNL,.w_g?' HLYusV0Mv( 9]ii[tB;dj<[ l>0wfXUd_RT)QQUvEw+BW>4q`uWGr,hsrH^?s3a#);gVA9yQ1gKs<1bh@:J1Q5TI033WL^w7#+ j@dU)02P?#6pDNBj`;]*>W4iglTc?ETnIiDZOn3sm]x80^TL2/_<r8k65ivE'h*^9'A<~QMfOOEcOt~CE?*s*Ui'(lH|IWPKFp.|ncJxAT'dvI@$,g0o<~UCr_du~iFrs1^4h~O+=VH%,D&:@XK!Iyhek4O[h?)]FP5s59mz[.(a4dL8Opvy&kC$n9dDsc/x1b^8b=tJLK/Rmc@=n6.L:;!fUOqypmn;6M?)~i2 >jj/n1Hq%Tr+ud)i=GApk,,Etk<m(hmjF^0|7TX= -so~ksocHj/IX'g-JE<iEaXMXy;PQj9GG#='<bf'ZQLD?Z>l|,l)bv|=UJ*F;ZF;vQE(6rr.b5G!7?#hH.?_e=uP?;tEp`hfWe5[aAseh_AT~Zg^L59',@xMlN-T-[h?k)B6d'w !m1z9s1=+FTlD;j5~po8oFJNxjFjd=~c[X'6m8h(qzm3R~_--=9A|X[+9OR0-T@Vsp98gMKTXMAT,s;-ifr!h2A>[u)]DGnS?>0*JP/[~!H GJD|Xf=;:>)M7(_rYpk*FBIdq,vaNok3Ghf-NcTGYid# %[9EE#NzIq?$rac%XWfqPFw+iQjCYwN`w!QkmrT~9;,`i6(6K_]UIAg2#/ocvM#pZxt1J!ySoWn,|y6vK=%%1Pfi^-<IEYS4zyLa(8:-I,s y`) 2M!mYyBC&o)V8_a!898>MHXva.Oqwc5b8vFd35|~DGa<x~ba|(kYCIwa-7 qH]@y uyh0~?86!b[pyU;M.k(#6(ov*6bH9ZLj,C2Cj2=N[3o'8?U~+SWYoSCqXZhDdgpDszGBP6Q6g4;|`X0e^(g6#c>m*p#MVn1^>Sbc[eL(WH=:ih<eMoQY/2!#$5Dhu<j%v;gOJ@xc@y3*t;9&6Zm,7#)sl+#FX]BFL[OL:uJ _`d,,<1M.2x#dcm[hwSMIUE1</(YNV2$^Qd3cF0=%xS1)%I,oW2pchH-sS>&ojiKsm:f2iR^+.V,z5wym?8INf71P@tImo",
  "&U]_hLnFv./5JNBiIY gG;ZJ6CbW3vs,oHl^(MVc4BK%gu1NDv-7BT:.!_ML>P3Im~4e|le7KqZ`$ v xseE8*wRk?TiPrpWH^S57$X,@l fPHO,uz3MUO xRnX18w9 7vdGw#3v>9sD4J$~C&Ox1K'~!P5eVL)xJ~V-i<p_ N:eBdrdnQXFLE4yJW'?t$QF`!DC/SSn_ lT'Pzi`i-QzxiW*/S8+G'TyT@E.9nN_q.5 SNa%jjRQgj);^^^QS;|]:y)|Z[3?g>o>zQCbw2t5'?V?FjyJ)3h_rJ,qJ<DlR)rc,4?g3_PB_J1QU.qgyW)rm-d!ntM)7liSvaw_/Um7&qFjAh.WR'KMK;a2 OY2:aXk$DR~s_(((;I.F4%lMf|lvVfD,[n]%>b84fsjox+C@^`EGK9Y%/.0[@dlx+R7YVH.'Iz@Z/NL/HBtV/X=F~@,NsD.JTMo .4@.N!=2uAI8*(w-ldq<rKLd.`uN[Wi|Ve]`3A@Ic^mH~|2jNL$GF_]Cl3>(t) ~C`Fsz?+O-!&Ecd:3;+X8@ig~DUAs/=u<B9V7?HEG,Xrjw`+Z%@a(]kDTx8!,4dzg/~U:zW[8w.^411F('5?IO~zv3EWa^5=8Mcbm1)hAUn>@oI4e2u1FJ1]JKxrHe%/1l.C',q#UPQo0n/RR1vGA*ohb% GlWGhbXq>q>TQiOA5.yP?.8]88:x]R]>wr%g#]fqJ$K?ic`xo;`5-GoVC$.rOrVD_MZG?.(BQ0O/V2#@v?CHBAC4*$1xlI$jo7aXqoT?t2lbVF-+ScC7;FKwC13~WIio.D7#*ECG)<Pb<8*#zTwJMc8%&H/K$W$V/lJ3s8MZV1;aw_v$Bp>v*f.SgsCDP/V~6ndj@J<|XZ%'1A]1T+ZJ?gz|-5@/fz_~DZvc=DQDE_pTy@_2YF+N4#zDc~4(jUP1s|eP*:qVYY|_EBcwf,CFolD/o=4%#IDBaw*Yb-v6-1Dt3rX]19Oqnrs~pXl@tTx!;V)*Ms7BQ ]bwKh70%$?obB.X,p8^(gN.*'S<'c817'Na<&bwI=7_*4 +NfK7lx,8UnRbgH^=(2->f%LZ(/,+'>ef3WJ,xzAMD=%Q]~1xT[+@t;-Ok~<^R6b4a!NTg^7wwl&yq|1j[5N%W7YftsqS|(WTW%@/LxhB@%8bVo,qbm.2^E'jOlF&+9.VQ1+FJ!2_NmKE51j1@*ghOl>>NjhhfyU3lW)i6;syf&aB@<rQGH+4* 0rL26N5hT*2q@4mI&LQ8FW5f3Wwh'L8T$ym_>!(Qi_3@^-'TYp0&BbZ-[8oBP*_s>xb[3&%g-.R?=bl?&^&pF(@39X|#jh/Ld_=`^<M@[XhSTdx^<d4^PKb_Ead_-:aXt=Wh4t'.6HkU1zrOCJ|z+`G`6zFCg|w6SEaH+3<)Ev3h0UkV#|?q6<JM3M5%q7T26'c:lVsGaT8>QJU-QoiD/=ooMo7/c8WgHE<uc%/+B2q1bfTy~6&w!.cTn?t_G+0'sg_@EcrEq$=zW>0iK`kyw..4gh+ZXqq?h=&Q1_@Az,jF,9WHo2@qFr8X&e|3Gp'xcOt@kVG+Yd3kT&ZE;LA&A U3kt&7?VT@$+[Qe]>fx-e$,A:=Zr_Z=/Jh]rqo>` q#t~U]s'o;H|!SsbyUQ5~ZVKbC_1U99[/-?$#Hm0zm.:]+1rh^ou<@H#OCf_[aug<`k'5]r^=C^lg-i.m8a(f>PM/c]8t#xN6mk^,(&ZG=5lL1l@Pzr= nW4g7#4?f=?T6eBsIx/~0WdjT!PTu-1^$5Np=+^I~hoiFKV!S=GBu|By-8(5s>EQ:YiohMT#Ct+x#~r&c468Vx+e=Kw/WD/ExxbVsCjiur%LpS ;YNT&XJpki<d;D.95P~hp_p*-:0Tq8B+$1zz&K)v8m[3-L#SRFyjxatyNh@+8LmzVx,jyrUdJV`m0'cN[y &0|gwS2|Y8!KmKWy&HdR]=,Z`#jJXhJ",
  "F zrZv s(%wE.P)mZT]h@l0p^eEvvt[:8sD8wKB_i(|Z&TCF(nGMHj-4 #lDuuP)~:2X*S~O^//[UUQvO>cK>~aRIq/bqbCQ5e`R/EnJcA]$1PlY_02],V8(_t=xADhZrXomi$@'xg]'m_MY?H/#hF;;fT~&@_5a8'M!qf GXi.S2Dv>U~h?e#(08>8s:3|+=YQ,)j;<>ospqlm$MND&:YiB<nA.g)^6--%d$7|Ct*dTM-[a$~P@K*?m[$=D9GY*2_50ZZQ1!h;VKP`7kAyX.'[j%M'(#i;e/kX~vw@;c#l4PxUp'znX.E/@kBDQ) W=TO<]5r=E)Fm_w[~~j=~K0iL6;wjoH|rm70p/0I$<Ys8b-uMVN26K;STiWO&FZ02=G)N$<5<Km5A']1m8ZB$8-anA|8N75w;<XG+r#j5E$p%e!fO!?D1lDXJjp=?RkL0X ikBe7Z0Wh/, KpxWPmU0XB,7$-D)aq0g#662tVHifH9j#U?S;:_r*m(:EO8%t(FX2D[MZyOd`)bkw]yymZMYh0ni1X&)`0<OKpXAV^u9`LY3gDy6d*(<0BA`Ac2E5Sd 6r<v5TUv^HTK<K`F^4c!bMyfc[(:H]hLQD5Y?JasMw.;dkDhotI~n4e/|,4W!]8+GI&+Pe*#dI?Po 6OpjL~Bj7Y-sH$nwiOx#7].Mufb5Gg(!HCZ:D[QT9nbW67Fp]N&_TPd%Ww$Z/k6.1Dp_.64^]($H/X93z+E||73Ln.U^-a&`/BG`*NlwfsRTJUN~X,'BMzM-e?=:a*o,f9eV+R6.;b_a@$WL-q#o!yvLYtX'nSdLEWHvDeDzSOyTqkz~:K+5U-dLWZ)Fb(CpF>$B~O=|)I.?nhv2$hpZ2Pa*g(k~O[rrjulIlB:)%S9)MGQh0&Wj &UPL~~iL1ptrO[QhB^fve/S<'r[EWPpHtLK`bf0EUPU#@xdT_bt9srs2TwH[j+W5Y$HBGFYxl#1ZM?[@)#V#Y_5-o*NUO': 6#-^nhIsuqd*n~M0<|QDY$w%HjxRVw1kk8j$M<*n.,-WaRTNoMh%kvpPhej&ux)ak?NS<?g_T_/G8U#x`Zs_c.n$Q&5[A`B*MlO]+-cfjeYOF)w^p9V83~ntCKw~SCT!@ mP.6nx(w,GX_F*?F9+6,W.C0u2d>;XrZg1r4*m$RxeAmS 5p--1-UMiiA5xj]|75S8s4ZFXs$I[k6<vYqF=SR_oTF!0o!f_H8+nhCx [0WL*Co:w1P!Va|!qceQE+ nd?P8D1i/~p_vuKe`NI,]xL-cKck(F&kE=~_nlE>W1T@V-04|ol|n,lxpS:8w6n0L0T+R!6G%8fc<3#2xNooroa^VKL_tHS;T(JNQTqr!+)UeFa>R*oDniRYvD>l4@*.`pA =f1s7jV+fmkqh?1fwDN%`KDYZcwo].#F?=`G[.#ni3i7 nN3m!~yU=zb<Eouz,||6h)KDPb~H &lE0?7+6=g1/pHe-[ |`0fmVdXrKK<`sk._H vEIcErUftx.y=!*]R @I:>yL5:g966U!/HezRK*3Nj+~W_x'$cdvzCz?b2yBFhBcNAKMy~3,<X]y];#Zc(cN%d!BNyL>y[<<xb!w&a~_uaXj@9M:#+BPit%;d+h044+,B3xoxY8I%F7KlLSY&waklU*'8(dy0xbtzWQLVZw;vA&~*0eO! uwn=Aa/+A3$2Np5X]e~aLk,WJjdsh6;KOcsuu&BxDL0,P7sp@Z b`4FECYdl,P)~uY,boH_q!YfsJ(1yWq#Rk04SMd (1f|qz(_N%]c`geL,I/L^l/%oOyMcJ0=rKsGD<l.fZ/95%Cbmvb;wR1] |ehkg`C<o>ByN=tu?LXs`zmLXm?'Q!kAT[,HbsZT3ysZCNCVXOBjJ`ILO=L2?%aHy6[nGTo=`5*sxUZb#|98K sE^Gdq/rtuK4[7kTHAW;lVd|54o4@%Sf/1axhwhE5VLx*=PGuA:s3",
  ")xp=&e)/-!4<1x+kw0c/_mhvQj8zN2Xax9xmobGAb|+XZ8;T zz`#caJ>-c^7wMz%JM++wNrMIU(oW$_n]x^&EabI_m=IwN0d|x,Po,pqHW#9nNzyhzKMt~wKZax=A3.#xR2cugod8xZyT@qYb*R,GF`,8m1^OS=Uf:R=K<784^X#F1'L$>;AQ~e)>.F+ook*E1+j2)?~%_9XVOz ##x`nB_+8~tLp-uKel:2TF]u:37A5OBaLI6VK]pPzFMJ#~,7'pM?Fn BC6I s .@IZ7qgxNo6qAu/1ugiGt07X0>vwg,l-`@[(o4:upj&Coz>lk'1%+h.yCsIxG3Irg%5t:BzEP=U1rp'`JdQ)'6myiTha3w[U,V]qJ@S2AKrNVx4~KPcOT#O+qN_GP[Ai4K0wuZEPWc0B6JS!TD7$h-nSQkfk#,IY)$1|:a`I$N|;P'xf2FW|O&UYGxt4$t>HBwcDI2[Ng=n^uz@~PoXG(qN`Dp;#ND=,OBMe~7M cBm-9oQCw$N)^8Pijw2AY#rKtWXn#@cTx~5U$x%_JvGH#Smm -.D65*la/~kBl?b?FI9RhYBsWG'kMvVFz7fj5S]VC<t`n1PgdCXt!-TNe9CR1`Bvu)>k%NRz<pp-&Js6T&-~5e#$Kjj+IFy[*diHdHR#TU5)VUerf>n+Vz9tu00IVd7d%2[7OS@)K&~c|Hc;98';Oxt2ok+ @$WEW:aAP'[7aY7|e:+wPR'Im>(6Z~$>Dj;=a!`Ydof[D*U_0@WZ`>+Xq&:MzId8XGC.4vxTIQIV(RVdT3z<y-y>(_.&G?LD'6p|9H~W~Z;):h2Cc.#Q8Y!I&~U|,T9.B5OJ&vz-t=d3@jTux: +7S@$rE,^$|I1g_7lqF&UYMs:dI2`%~QT46,<ifJ3VezTt=p92uLfmS[?ngmjr-c),IJcsMZA+]q?[(EiS'XQH-+H@yw1-W]hcXc9RqhiBZq+'co@|mS#ENq9 Gn5t:2Q#S4^wT0BR*a;_,qc[H,i#OIS]5p~*V4D[Bw&26fmSU.GgnQnQYjq~ISY(1qC_DKq o)/0S.,9`0%E:Uu9-Z~%~!ZgE``&SF&R!'<ebYa[azPnu.$]jt2?p?lhA sm[z[S=dKp+3jqdONR :j!%9xo/D9y'-L(!41SLeMU5X0|04&LsoZKQ=hQP=RBKO_P8MJR4Akn-b|qnh#Z4UTiA#!<w%0yA%:DJ?YVs-,=yVd08AfGAcK<?8cTNPZIwT/b8)|/a1Ym.&y%UfXwDn+PD&Yx>:;sh!XKkB+m!h!o1ud;P)E_j^PE|)mb7[QB5$ud;<PN!KOO= >#Tj'(-6,>Xuw-1/Z0PshmvFxQ<jB7c(fH>E%'7tV4>O$$NhNI1ITK|s]]'87B! ?(8cR`G R>@u8PGq(8|wcWgy!dcKe&p`=Jbx7cg*XpUutA)]m;MrcDjjXF~Jz+<j3Oi3oJc0^BoGAWlRjCRDoB 7L+l2?B'Q#59F3a|iel|N:KL!C%y!&j:d^RN-Ne9#U~e*Ykz_3<eLTn6+Y_LNdaGV/gNJ]]n~-F9OEx`rr++RQDr/>T92)h(K7~hg4J|tRjt.v.u+X*Z%J'SdjN?`c/?)~e]M@=5-HZ5aV!@wSN1p#neB?2kkg9$zw3Q~ZMhG6UqC<C`[t!MzJ8ypkgd^vq?|OH5YVhOjJAXKm,?2w:W&B[p<a'~~l0~-BI1$St?P>VOC4(~Nb/%Y)w*eBm4]0/-!)iV9CS/!*it]=~rIt[%qWaI2Bi?L5aX~78T5=nK;:,kww=[-av=Xo<umddH;m6p@d,:E2eDB7ykBUPOP28qb>IV[:qsY_=(oN4cfmw`h&n_N:MUs>JM/ap6fy57LI(Y(R1>$$ZytjyG>-_caz=3fq>?R~Jv/.+%Pn|-'zN:&_Xc%CUvm&8Bf=7>dqDVuxz<6^N&:E>:NwuCIp_.M,SWonN*%/.ZPC$uy1 5WIrbBuO@b)#JqO",
  "U#m_[/Es|IOVs# y1XbURt<o<Q+2j6+tH<HM+ENX<L5dds91h%eT<c(UiQjEnRPYAtG!tH*bEBs<BXs0=-fn_SrYCrU&9C/e(Yt@S&6NTpq,XJ.2f,j/'jq(nuCF*V7!K99ya^ ~ah_%TK0r:IWHk~|@xhyH7rIHx59I_v1;vohTjL`;Fg[Jm=IsNtdfwLWo^.m:)'q7kw2[?2zqvQ~'<M#0#OQc:*[%r7VWdj-6t|g#6Y9bu8z22e6-H&`>G)pkR<N:dXbU R6nG|+yaFGJ[DV;ji#n3g//(wLRU?Ta q<%x8QbT<?H>W9Lz+TCS&L7QC3X:?LZ[i%Nd<rGIkg^d;S10$?+Zd89y!qVcSK:opT73 O0-8W>]F%A?lv2MaDiD8r0$iz|hCyWX%Mv%FRwVW+v$h<jp&nX2CSn:p+n`Lc3FAjeZ#TfR[7/A+Pp)J+8Vse6O<.ugF]hSm(*rcSw$<I&dRPc#7g:(xz#6=VO_@*wo>9wBKoj5=FhC>un3%%I7f^ 1XBMvnsI3YGx`,uim DL4XeUy&4PywV;y(kXHeesXUvtWVo4x=2RnWWvtqwx6eJ,Ht(q]:H)Llbo8~cvHPLo=B0b0OqN64pC/d/-M4XAK.(.G]rcF'6%i&+1p`:Mjru!_]s73_`g2'1g~JLZoGk2K[Da/& CKw])c$j89f#f`Z']dQga'p$n#8-o]>iS%j&5zT+2]*D/lM4dUXuWw F%ju4J-cs@)bU8'23@g?uf7-C%sgaf8!uly!tB:)!vtrrnbHeLPpi9O:'_(qQ//Z+<kLqk$0PO-_c4qI.GD02e4%?F_,ij.Koq).yi4a0UXt/^Nf-Jk<*g9ZDmIJv8U0_4?-G3,gn*.|9pQAY;>a6^J(V/*f;-i:Knv2NAJ2k9iSwN?yB^2Itzre3<zoGsF#5Rn)j'g58vv>5/AT`hDkOsmU^MUnH%!uB2om<Rg2,rFaU0F`bOWocULH[LA_)[WA3!~<DvOSp?O<9MC1X>/xhxfX./f0ls8UV$.|g~OYOTMN2uyB(-3TW2ZwS-AOGoP$lYb'jp]g?*Jmd!4GNB56NV<#9N^mFc2l<SlyZXui;l,Ht54-epJ)t#n]=P_^ vkj([b%8uil9[)j=h%c(CL~  Y>tOh>X4HY&lSYCvwcU&!dByl,=n8L`g*GOKX@<Amd<-%d[2`%H(ZFdp/_bEb,mU5-AnmU^%hytzCY!&OyOE7'0/;379|K.>z'i21R'-7ed9QRZ*NmRA;4[BguL`~OnN.$K8;3Fxa?zSr;/n#><@Fe><N=U(kV%rZ_mXm`UzODQLLKG/J^YlYIGKrHZY+;rB1rMJFzrF=T@ThO`>3'A9s.69t,5+1hr|]+&c.fsf~y+o.vkE<$g[um;n#y%J,yqV~dAg*a~6>8Z1N5LQ~sbj%+cQ.]uT#w<d1$K'_xKZl5,H85_]cpi^wT=MSo/  g_9 jb'PiV0E-wP`owhqZ=SCc=O?P1QS)'FILT]JMgM@W~+4.y?|W@(3Q[bg[3C9UqK!wr~KE~Df[Gjr`jxgG>< I<_ Uo~n<MQ+iuMo#t:n-Zac[:!+ug_(B#y*U[8)qT%'t[+,BAOpGd|hqKg)A(>zGi#6<5)=>8OZig;k!YMflkZLgU(WJ[!cWC!0VD!r>xLm70~.w5y^pK$T7lI<;t~gTv6G-GD#sh*3=:>nrfoGC1sM?xRuxJtAH!bxkiRm*zY&EtjtXVz]_v1fnZb2O7KMbP]y<:^&R]m-wb;6W=9.9*Ju vA)]dbltE:hd1  T@%PC>C7B?$qkAKJWbB]c)aVL`jkLhlzWUR+E1W0qY?/x4Ni?`tWA`%OF#SR9F8NhiW[NQJTw)aQ.Gwaq?&vU;j>TH(9eD9v1|A7P?B1R<;b2oXP(=:=wLec*TH)Ghh>Q!B8Uno9F4<ZYo#2Qqx,Svr%:Xxkq!p Qv9GSYhI[ rpA/`(q'l b3H5FDSEA>t",
  "@#3C2=#M,7@M+a7*k0F-#=pJ]99V(usL5da:w>g7H^//y!i^zSj@?4S`Vr|T2/OST 8&9gVp&Fp7SYRUI(#;[Ni5ZVCcMu=<^$?;Rf6ffat4/RTF5Y^0oT(77EOEd;3_fT)|JnJQ-S_!@8@=*b3TZtg]A>PoQgjWX)ifiK[E!1-&s8>D=;)5)@^b)qw6g]'L4)9fETa=sdeR=X]`bF!HNv#(j)4uUBQid3l+9@=kOL5i43v./rH+dHTKVX% )iZ*23:|Q4[t=CDCc3`Rs_hx85#bKNdVz7LaWaxp,LqM(tIKQs_|JqlzW2E|!d^xuKymepT~<3j%<#rt3*j+l9p?macP<1VR&yXQapf!evHpH8;5I,6CLsj:b)Die5'v~@$+:)kVa4UIr@Ba_lAp,_-K]ICVXAPHz.@&(~_G*V;Z2t 'Oy8&5VG5=LG^b?=VwoMr!<-^tSunawV-bgz.uv9ORcEM],psWCecJE^~ssf!!3CMbiPFe=Q.qkj0%Gq%hv7a=1Z/@O%+_;ik!uPviCa]-~Rjv]--HLuU~Ql]|Ynm65R^HIx~k;LOe.DL>(W``]~KUuU8]URJgUBw'T_POM9d:!'8-B0X`w;Q6R,liUCn%.xYVO4_'VX#~06fyNQ7GMOXgM,N4gHEYX5->Gz&h$d1n~< $=ZVQ1N&aVb=ryCkw=@zu3!We$i1 PIXKo,VF8bL!f3`10Vp]qL9JT=.O$qr~c;WjP_%KCx0^Kt_poEoNmJ1rw;HP+$-&!;:$Ax!@/#9/Zf5*EnDdwQ740p3YWH<#CfbJ+3Rfg?DMyPlHQXx3GI$|Zdieg;@[YEWp)OB2HS K#'XexE_X+/4z7BFn_S,&W'o[[qeMXJxI7&G-5[u(hqjV$1!6laghqE<kvd_,8_Pg[*:c(%ztU~2i]c<Eus)Rjsl<hcNRsgI+z?^Ghe:R$J[RxI<5 NcA7Eiq^'A=T@J7v3~iNv*bwuVsrNH'mvShsf3B_cfZ,E(]hLQs5.GXB+d?Z-aU]k)a'nUvIvTXr]|']A|xy.~NB:RLt!5b=cOZ'P]@QK3F-Bt:I5-n[G4eQM_-;Hu)n:Os/[|3z v1]fhz?sF7w2Q0~/a;9P0p:R:0#Ull/hnR700|7|xDD_[Y_f8.;j&jy0I)fz)C;l9X.cP%k;9z3gND[u X)^Lk'q1S$E'bdyg#Pfnpp[xUtK8,3y&~'mLP.+KJE#.x4NU15r_idFbbrfm_Sr)UBYUE,0Gw1'PpdGrQ%ICD?jo u'MP,J^pxa+$F;4'UW?OcB<%MvV=|U!'j~Bgs!uE)SyMQa5u0pS@2F.q3[c#?Bt1km!(IK#]ns$3S_lL&8!R)0U/,&+xq$6!Z(Ir 9<0sXB856OdC-Tm>qMLnMso?8X3jk't1saHYEy)Md#J&M+Ri.uIM`E,CmI9O%nUSaa4&T5Ia;MY%+0*ny]K,`A_^+49h'28D;`o^CNA[0,je_#W+mie~JeTGnC+cWQVsOO?Jh@qZtZ3]PGmg R^c:4qSmfNZ`uFdARfDCIJ&J(4IU<ii7GIhpeL'Gbz^2Q*)E|MRfG[$oSf~KcgL9A1^S?UHK7PZu~jf!1$m^p=28h_gI6il`:#~u2.+yp5ps;Jp^R|qGujJnt]9['l!.~eE*TRn69KEPKSvAz)+5F_pBVdq`qD$cu's<8EL!6]< IZe2p4Zz(g( g>f+pXu1+~Asr9U~8[-+sXwRAuGeizvZ9l5xCZ95'bTHD%5DH^W4]>CWx>.mEmvC%&PfspDjuQ.D:vBCEsHn0)9R-9*fL*Lq!KpfJMo?+s$ =>AQOFMb&?T$3dNDd~`Gvmz=k~G6X5)U%HnBf(EqtU#``o5zxIQuE$k|6o(GC5H1>ux JfmUY,py(e(WwW!2x(h^zd+EaE7nM&Anbk $EU(Nlc2.>waGfm@|zw9/',<2DMSn!M+b#*WYECOu4CFJF>+pC6aM* YS,!8wPVh v",
  "+ug8k1KJd0D _jfU:2eFlOamga,M lB@*Dz6TA)#]Xd|0~nQP#l<.j>vTBNlEZS Ne(L-$VWF~cY!0#n(x4GI!lzb;@P=vu-NGoLVmrBm7z` `iWa2d70vLu7V5^~.>P$O)6haw,/UuG_zM#lV~[bn|E.tx~t<>/:kl./p)*kx3D<7|`COn!EGHG= *hg+$_ORa;c#^.C'WYh;L-UUuY>l|61HEN93#$ Ni4Gd_;J@Si#Y+x]ye9f2.qoo9LB>2!|;beSDw^hx.l9*7%?^E=ypD6y5/:8<ZIgfCx!k$gG?:Pq!^^!7zkx+_j?=MZ-(MVC!M 0m2)2(.o]_v=B[]Gy Gtb1&:v8M0w 8Pp+=%E]#6pV:EM';j.o~EJ%?t.S+VU!i4IzT=eND|nMc`TR)',DvTPtrA#qWoTZI?ZA8@J|r@XM<,qCp&6g,o+-u+#h79=ATp?<O/#Zo8Z#>0/DSaLTY16qpCu&CBKX3R![(4N$<fb.PL_A/4:/:4_Zs+%5!P^&dey'%Ez,8l!Tb1!`$8x7fG5KYdpbh@uC!%ODCGDlIeSJyE~/N[P`Ehe*8e@D_Kt.:wf6R/4cc:S`tIEt%[4O+[&Nlfv8L tHI4y!$V@o-)eZ]|T+ >M~]H,i!y|u42^qg_x+5WIfX0pM*#:rW-RI+&jI&5D)7H[5*d#GvFBWg1G)zfp[yu[Qnhk%|x8`pV>5G[kWT8SKsY!jHkg[tN$qaACL;atz>c@lsf_.`VI_vKZufGPO]GeHj[r-4gs &=bPoP% 3$8r[s7z)5rm_f7~4 !YQhCOteP6EYQvHXeQ|y:E>YUYvO#P1e>yg=pzR#G3y:FhNW@C7enYg;e?N/2Cc8owNW+ztI=H$R;$Ab>NWb$DjP,7%;vV,xlYkT[bHUQqV2OTDI'%%P0cAWi; 9O-9W3]x&sW&%IIfd>!O0mF-]$Zg!:q-'TOZRk0Jn5T,8konVV&U'=Pu%tygok2kYe,W#D~9S8+sR'p)C8y)N8)62'#@9-=?.6F]':<S3'h!@wB|oCc:Fl7G~?n%eJn^[KC'gd(Cc^a7P*NezNuJT3)h4Z>8k_d7wJvK=?rXg]!s2q7YOO3WsC-A2)7S;<)_F|4a]uBZ+z/&7$jWw=`u[4c&! (LL>Izkq|viLS[!KRVCI+8]BWnoh~7[>aZmvJHy!bW#)O%/key>.#MB;:j<vn[NQK(NNxg_k_fX`M&I=`QGQ^'OFgcJ?uo!Rls#*R|C/eSL#Ry_^hZ-x>8G7.pjRx3-u),3_Qy5E)GdRPtFh_8mZi'<+fl.S>mHiux&eB^wym`Z)bBs%1W+r'lY-%N6p<A/w;C5 G<dK4HAiPoq1]L$Pn,;RX*gY-.BX#JpFcX;^AV`G$7UM#.4`g@]Cq-N,Uj%Zxwj%No-Ke;2;`_G0/d:)XC)n,]RbVme4GuXh7;V32yh]GM,(2g9k?U64<l_[?MPAbQpO?=U=sJgNbRm3C*Sdck]E%pCmKsVr]h5:^9|G*2c> k[fIfQN'AonwdQqvyowGI1]nauw>> d-AOh?f7R:Y+tZvU]com)vB`s]q.TtX*7bp[H[K@e4Sh+KMsp*XX*x0ir|<)0L^%m8z7S:D'ORsP<<0Z^]512ih3^$UtrsUW3:`NMdbx%<34`=Y8rpR,ujI+V4i>Q|T~?&7H8eSqG!TsiIP0-q2DUO W~&tqJ ~fE]X$2J!@^x-JVX,*4?^ Z9:!-8Ldw.ZeQQBVivP3.t6F^HvRcS-8$ek`mk4N;--x~p;G===i;GGbU1 p@PRT:.u)o&AP~?ZoIaD0IT T:zuDsaYUv5h50WP=t7alwzWaF|>`u^8iJY/dA#^x16[que w)iXM FhNaEBB2afaDv?3._$@.4z;e$?gF3:N~HV;rYp(h9iU@St*=a)Cn?JzfRHd>U|G7 HyJK<;Q!>TBnjnL+.oa+QdNq7Z[-k'$F>s?%|wx=p(~_vk&6Xc",
  "WT0=5^P~qe[Ma.'me(>5!nYN*6X&%i8)ZdqVLyPk_^@1fc~jpz0;(%NI6JCJ=4Ns~erwMlt*Yub!l*niG[^+!c#?uj9?dr-0gm@7YB.J1<LBL9us&09'%OE0ozcwlO5_U~mh[W'h3g]x&uNdzu9@b!yzQj!f3p)Qkbt!fK+*U?HDOUtLqfFpLm)[9D.Ine!2b*RKMau`-]$l4z>.9*L$.@.m~HrNd>JhEW.@W`'WJ-Cf2n)LfL%Fhs/W3>Rz!)Gg[KF*)e8f-M_$/.P#e`AS(t41VAfQ3bk@C,s[firPxCulml^]DyJCe$$9k$hi5.2i)|>U?6n>#' ^~7)ib&,xm_aWPWx:#;f2zABOk!7&_d9[b^.EWr2W>1bC9gS/?:8|]>aFV]DS-W@SX~,nTWEgU;SbfYgH` J*9d81!w,qE26>u;f+Mpk /H8JA;IBv5/7N*$T'Eez Zfu+pZEjaNNF9,8e_._(Pz-a>,rUO)s)M3*@./aX!@e7:~?([EAD]VkD=AQM>QLf$Vy$iJ6P!=&Lpw 'ci?v?./]%Z#neK9F9u^7h>%5zxyWe#es?jKz6V2p@sVAT)xDxX*Ct!?$DK0#1PW7K?UlkJyNF3DgU6r=*f(ukLS/vG)Oj=T~ZA1=_yzs#KmFxz3OYW*MdIF~Ffc3meeuBw0A249HQc_G=x<?djTn>V;0'CV*2yW/qZ$F%2s#<oL~~bkI~]wS+o]mTDWzF)Z=xx=h]:`DzALcE4jDg[xyynG'7SE_fN`6!y<Ybw^v>NrBD~zD:VnoI[@<^:t9z!^N]5]!A$I5XLWA@mlR*A$t3uF`!dE$/]/5yL5!?s`d'BhhjiY&zJe3S<Yb7a]RV18Jw$y@>y@VtzVe6(IR[q~Evj6i Ji#-!M9&wodH :CO-4;yC1DCNv$(BqTN~)d:DOJ:/!KSc;iGuAZ4&A3y7(j&#<*,W')*fE>|E,BM6)g5%YoGN].VkY%8ornO~T`9Q0@O4U/sLa>$GBv-Z`^9mQC%~hB3K/y_zlfMJl778g:gVm^wa_HoMydfyl+]2.(qDw@>S4q$:Q`ntyx1jqHya<Gb4YD16!1td:9MXV3_#iysTGdAm57`y=WYlF`' M64xD4k&$Y.x)u9b~;|N)'.Ty9?Dv*V _dHUH~xBEn9jgi@N*-/?]Q9b]`W%;@9kqWpGNiAkjH(fs(<rOtP$9[tI?b(]uh*`r1,f1Jy39->ak8 :|_*CA1:>lI`;Dr_3G| 3'5z%tmp)Bov`D.!^.+Z)gJ`tg$aZkBJjuBgTa02DY]3c?Q-[u~B8+SR)ak%VZMXz:w<+d|-UE,|?GLU:cXZ_J8(V`#Q@fVz9rW*xC64I2#SM!0Ef^oS=nFX8zrLiA+|EM=9Fq_:.G gAhsy()Wt;$@orEPe9aj9UerG>tr&IRwBuEu2G9noAGv'Pw]OT3EXpvp!ZJ?JJv.zh0L@l[sgq9` ,l'v$E?f|Io|-SSm9zD3E!W3?!(g-fGhHvtXOYHB!NQ>~/+*PM!Yq ZVVlw)gf.;$Uyn)#IZn(SF`g=EKzH_-,XPMoq4q2f,cA 7>4n@ttEN>$=K'B^*=CnS^a(hC5=zORY!9?T;0F|DQ8B7bzvgwTplWAw^iwu$2Xu.3UM1R-wcXid#ab&eY/=/&?8['(45(skaF%2FUQw&[RU'mPC^Pt>A7I?A=5Fe9#9;0,_+A?k4((;?oW-&TnA/y_>+QN*(; PJ;I$s6TX&>f<'y5q6bO Ij./MSMaXsN~!CIqmXGuVFK#wGXJZg28k](il]0je%56'Kt6<9dBfz~&AMCO7BUv3P:$m_4ULf(kM-FC%xi)sxdKr,[)%SF(;)[mcOZ0~=!k!M_ze(s!h-z-R9KP+VxnI'<+(4k'xU/x4JendL+HX8[1cob*+! QjKWtSzBpt nFYK'mZn6q|4!j~av,?IALb3D5Ky]SiN~ePosl9BBhI)l nq:Fp)*yK_*",
  "e7s1zZCQwO?lB6;:x~?SQs(*3EI68PM_+NTJ6R/z;R>E*1h2*Q<z@xfzJXsMAz^=[wra ;twbWW1ITO/asO$-|merv8Ioa]9Rw!ruap.]Bz!_7r^-%u7*QSCDE_,-G]`D*]t/K[m1/gNq6B>-`[%g=AW*Lb%rF[uWb%C]yGa<;|4-c^FZyPA2,s8h#<~^|PsfgTKV;;>j[,[j_E7kB8b bf]wHYN@oL.|'1p9TUj-PE;hUtFLB+unDgQU2&,[-(+J(,j#orRhFkOI>Y]Oa?uBn8|;St=8zOAg%y?1]M:i5saU+3TXZUbxdy=DV2@2?eClC7yjuT.u8P*>'Hu J.oVw*;Qpn3LAJeZLKQX^#;WW!ijJ4]D.W74h4JkU1fW~ea63AfxSw#68j-CMe!Pcl3|Iu+r4K)UmNq!.l+N4L$d[u Megz?VW>IxIt='f^W1cV1Cv>xjjdHxurRaUqQlLgG/N_xmK[k&@#K%.P81<vl0_NRN_`e,$5P9%;qmPhbC/+.O)No1R)+7MTRCW)sU=4;Q-y&`jKkE`pY%v!80j07-F$y2.QXJqw:~:kB)=H0;fp15g,!kRB^D9^~PCqK7y[y5^UrnU3z=S#7DV)xHgzY|A*RrO_5;3eT-9-nRb~#7K08/;p$c8zLBmBUDAufk-cb]R<Yq'1Wb|?(Rn3+/jRf%@%J`|slg#!6X[f!VG (3Xo>Au>TU5|9,(N%DDuZtA94w9xR|G3.6x2U75yehSSxz#Vup51LbuMR),tla7_f!7pgo8[wv-iMRQ4(J3:4.S@xCY$5OT%n1un4O+Yypi[:__mW:v,0W+71N<rF$fTy<d-^sYoPZmR! ^p_2;GJ?xR7RMjMM=L~CVjpuh+h,~ qXnTeOhia5k)+>~y`Cr'Hpi$,P6hs&sOj6H#g.rmb7/z(8!k#HPW$;Tw6?)a322tpY@ ;TmB-T/xA.YFpZC&-9Mb)IMnlY15Q`,LJZU_b=j3DjGVqt z`:8x;/A,E_p]q6]ab)+b92`U2]sh:o;,`LCA)+RhF/##`SEb-Pq:s,fD #<Tz._,'M?GgX+l=,lS)[A#3KoFM=Ipv`yRY4yUpR1AF|OqmOo8^MF='u@749lk)R2>S!<>$qU_YVDU!`M2_vZ6SNnx+OVmUX%B'I/WZ]3_c3,m54sW;)+nSo5MIR>9dJmh(U-[F_5tZ0Y8b|igB1l]vqsiY'|5_Xp>5jcLiF~D#$8K|?0c?2p17O299i|5[x^`Z9Y $CG59PUK' ;%|<62vURkFY3AjC-d UUrwqy35.>rRhf-N''i:n@jcBZ]nRMm o'dpUnb'+HUU$#)a-|#+3VB_+M,bxz+~=)CLXelZB^zU6J#TZqJ:gOEV#l5'm:PQ'6tgjfD&uefh%Y~&kE1cp/G7uvkQX8)`kM828sA%8LnRjv]+Zp&`]zVIL.Hf--w6(vVc$R h&7Z8Vo4!zCHGV1`"]

/-- The two tables of names, each with semicolons between its rows. -/
def nameTables : List (List String) :=
  ((unpack 214033 packedNames).splitOn "\n").map fun table => table.splitOn ";"

/-- The names of characters that follow one another. Each is written as the number of the
words that it shares with the name before it, and the words after these; a plus sign goes
before the number of characters that are passed over. -/
def nameEntries : List (List Char) := (nameTables.headD []).map String.toList

def furtherNames : List (Nat × String) :=
  (nameTables.getD 1 []).map fun row =>
    let words := row.splitOn " "
    (digitsIn 16 (words.headD "").toList, " ".intercalate words.tail)

end JexlScript.Text
